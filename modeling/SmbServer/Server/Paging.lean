/-
# Paging through a directory

A scan of a directory is one QUERY_DIRECTORY that makes the listing, the first on an
open or one with a restart flag, and any number of further ones with the same
pattern and no such flag.  Between two of them anything may happen that leaves the
scan of the open alone; in particular the directory may change.

What the open remembers is how much of the listing has been sent (`Sent`).  One
query sends the next entries, at least one, or answers STATUS_NO_MORE_FILES when
none is left (`query_answered`); so the answers of a whole scan, read as a client
reads them, are a beginning of the listing (`scan_exact`).  The one thing that can go
wrong is a name of `2^32` bytes of UTF-16 or more, whose length does not fit into its
field (`long_name_unread`).
-/

import SmbServer.Server.Listing
import SmbServer.Server.System

namespace SmbServer
namespace Server

open Wire Vfs List Option

variable {E : Env}
variable {req : QueryDirectoryRequest} {oh : OpenHandle E} {pg : Page}

/-- An answer to a QUERY_DIRECTORY: the information class asked for, the status and
the body. -/
structure Page where
  infoClass : UInt8
  status : UInt32
  body : Bytes

/-- The entries a client reads from an answer.  The buffer follows eight fixed bytes. -/
def Page.records (pg : Page) : Option (List DirRecord) :=
  if pg.status = statusSuccess then
    readRecords (64 + extraBytes pg.infoClass) pg.body.length (pg.body.drop 8)
  else some []

/-- The entries of several answers. -/
def delivered : List Page → Option (List DirRecord)
  | [] => some []
  | pg :: rest => pg.records.bind fun l => (delivered rest).map (l ++ ·)

/-- What a client is to read of a file. -/
def FileInfo.record (fi : FileInfo) : DirRecord := (dirEntry fi).record

/-- The QUERY_DIRECTORY `msg` takes the state from `s` to `s'` and is answered with `pg`. -/
structure Queried (o : Origin) (msg : Bytes) (req : QueryDirectoryRequest) (s : St E) (pg : Page)
    (s' : St E) : Prop where
  parsed : QueryDirectoryRequest.parse msg = .ok req
  ran : handleQueryDirectory o msg s = .ok pg.status s'
  out : s'.c.out = s.c.out ++ pg.body
  infoClass : pg.infoClass = req.fileInformationClass

/-- The open is in `s'`, and its scan is where it is in `s`. -/
def SameScan (o : Origin) (fid : FileId) (s s' : St E) : Prop :=
  ∀ oh, s.c.open? o.sid o.tid fid = some oh → ∃ oh', s'.c.open? o.sid o.tid fid = some oh' ∧
    oh'.enumDone = oh.enumDone ∧ oh'.enumEntries = oh.enumEntries ∧ oh'.enumCursor = oh.enumCursor ∧
    oh'.enumPattern = oh.enumPattern

/-- The queries of a scan after the one that started it. -/
inductive Scan (o : Origin) (fid : FileId) (pattern : GoString) : St E → List Page → St E → Prop where
  | nil (s : St E) : Scan o fid pattern s [] s
  | cons {s s₁ s₂ s₃ : St E} {msg : Bytes} {req : QueryDirectoryRequest} {pg : Page} {pages : List Page}
      (meanwhile : SameScan o fid s s₁) (query : Queried o msg req s₁ pg s₂) (hfid : req.fileId = fid)
      (hflags : req.flags &&& (queryDirRestartScans ||| queryDirReopen) = 0)
      (hpattern : listingPattern req.fileName = pattern) (rest : Scan o fid pattern s₂ pages s₃) :
      Scan o fid pattern s (pg :: pages) s₃

/-! ### One query -/

/-- The first `k` entries of the listing `l` have been sent. -/
structure OpenHandle.Sent (pattern : GoString) (l : List FileInfo) (k : ℕ) (oh : OpenHandle E) : Prop where
  le : k ≤ l.length
  going : k < l.length → oh.enumDone = false ∧ oh.enumEntries = l ∧ oh.enumCursor = k ∧
    oh.enumPattern = pattern
  done : k = l.length → oh.enumDone = true

/-- An answer given when the first `k` entries of `l` had been sent; then the first `k'` are. -/
inductive DirAnswer.Continues (extra : ℕ) (l : List FileInfo) (k : ℕ) : DirAnswer → ℕ → Prop where
  | page {t rest : List FileInfo} (ht : t ≠ []) (hl : l.drop k = t ++ rest)
      (hsize : ∀ fi ∈ t.dropLast, entrySize extra fi < 2 ^ 32) :
      Continues extra l k (.page (chain extra (t.map dirEntry))) (k + t.length)
  | noMoreFiles (hk : k = l.length) : Continues extra l k .noMoreFiles k

/-- An entry another one follows fits into the limit. -/
theorem LetIn.entrySize_le {extra limit : ℕ} {t : List FileInfo} (h : LetIn extra limit t) {fi : FileInfo}
    (hfi : fi ∈ t.dropLast) : entrySize extra fi ≤ limit := by
  have ht : t ≠ [] := by rintro rfl; simp at hfi
  have hself : t.dropLast ++ [t.getLast ht] <+: t := ⟨[], by rw [append_nil, dropLast_append_getLast ht]⟩
  have hlast := h t.dropLast (t.getLast ht) hself (ne_nil_of_mem hfi)
  have hle : entrySize extra fi ≤ listSpan extra t.dropLast :=
    entrySize_le_listSpan hfi
  omega

/-- A page continues the listing an open is at. -/
theorem send_continues {pattern : GoString} {l : List FileInfo} {k : ℕ}
    (hd : oh.enumDone = false) (he : oh.enumEntries = l) (hc : oh.enumCursor = k)
    (hp : oh.enumPattern = pattern) (hk : k ≤ l.length) :
    ∃ k', (oh.send req).1.Continues (extraBytes req.fileInformationClass) l k k' ∧
      (oh.send req).2.Sent pattern l k' := by
  subst he hc
  rcases Nat.lt_or_ge oh.enumCursor oh.enumEntries.length with hlt | hge
  · -- Some entries are left, and a page of them is sent.
    obtain ⟨fi, rest, hdrop⟩ : ∃ fi rest, oh.enumEntries.drop oh.enumCursor = fi :: rest :=
      exists_cons_of_ne_nil fun h => by
        have := drop_eq_nil_iff.1 h
        omega
    generalize hx : extraBytes req.fileInformationClass = x
    have hpack := packEntries_cons x req.outputBufferLength.toNat fi rest
    generalize hn : taken x req.outputBufferLength.toNat (entrySize x fi) rest = n at hpack
    have hsend : oh.send req = (.page (chain x ((fi :: rest.take n).map dirEntry)), { oh with
        enumCursor := oh.enumCursor + (n + 1)
        enumDone := decide (oh.enumEntries.length ≤ oh.enumCursor + (n + 1)) }) := by
      simp only [OpenHandle.send, if_neg (Nat.not_le.2 hlt), entryLayout_eq, hx, hdrop, hpack, hd, Bool.false_or]
    have hnle : n ≤ rest.length := hn ▸ taken_le ..
    have hlen : oh.enumEntries.length = oh.enumCursor + (rest.length + 1) := by
      have := congrArg List.length hdrop
      rw [length_drop, length_cons] at this
      omega
    have hpage : fi :: rest.take n <+: fi :: rest := cons_prefix_cons.2 ⟨rfl, take_prefix _ _⟩
    have hadm : LetIn x req.outputBufferLength.toNat (fi :: rest.take n) :=
      (prefix_page_iff hpage).1 (hn ▸ prefix_rfl)
    have htlen : (fi :: rest.take n).length = n + 1 := by
      rw [length_cons, length_take, min_eq_left hnle]
    refine ⟨oh.enumCursor + (n + 1), ?_, ?_⟩
    · rw [hsend, ← htlen]
      have hrest : oh.enumEntries.drop oh.enumCursor = fi :: rest.take n ++ rest.drop n := by
        rw [hdrop, cons_append, take_append_drop]
      refine .page (cons_ne_nil _ _) hrest fun y hy => ?_
      · exact (hadm.entrySize_le hy).trans_lt (UInt32.toNat_lt _)
    · rw [hsend]
      refine ⟨by omega, fun h => ⟨?_, rfl, rfl, hp⟩, fun h => ?_⟩
      · exact decide_eq_false (Nat.not_le.2 h)
      · exact decide_eq_true h.ge
  · have hsend : oh.send req = (.noMoreFiles, { oh with enumDone := true }) := by
      simp only [OpenHandle.send, if_pos hge]
    rw [hsend]
    exact ⟨oh.enumCursor, .noMoreFiles (by omega), hk, fun h => by omega, fun _ => rfl⟩

/-- **A query of a scan continues it.** -/
theorem query_continues {l : List FileInfo} {k : ℕ}
    (hs : oh.Sent (listingPattern req.fileName) l k)
    (hflags : req.flags &&& (queryDirRestartScans ||| queryDirReopen) = 0)
    (items : List (Except OsError FileInfo)) :
    ∃ k', (oh.query req items).1.Continues (extraBytes req.fileInformationClass) l k k' ∧
      (oh.query req items).2.Sent (listingPattern req.fileName) l k' := by
  have hrew : oh.rewind req.flags = oh := if_neg (not_not.2 hflags)
  rcases hs.le.lt_or_eq with hlt | heq
  · obtain ⟨hd, he, hc, hp⟩ := hs.going hlt
    have hu : ¬oh.Unlisted (listingPattern req.fileName) := by
      rintro (h | h)
      · rw [← he, h] at hlt
        exact Nat.not_lt_zero _ hlt
      · exact h hp
    rw [OpenHandle.query_listed (by rw [hrew]; exact hd) (by rw [hrew]; exact hu), hrew]
    exact send_continues hd he hc hp hs.le
  · rw [OpenHandle.query_done (by rw [hrew]; exact hs.done heq), hrew]
    exact ⟨k, .noMoreFiles heq, hs⟩

/-- **The first query of a scan starts it.** -/
theorem query_starts {l : List FileInfo}
    {items : List (Except OsError FileInfo)} (hitems : untilError items = (l, none))
    (hstart : req.flags &&& (queryDirRestartScans ||| queryDirReopen) ≠ 0 ∨
      oh.enumEntries = [] ∧ oh.enumDone = false) :
    ∃ k', (oh.query req items).1.Continues (extraBytes req.fileInformationClass) l 0 k' ∧
      (oh.query req items).2.Sent (listingPattern req.fileName) l k' := by
  have hrew : (oh.rewind req.flags).enumEntries = [] ∧ (oh.rewind req.flags).enumDone = false := by
    unfold OpenHandle.rewind
    split_ifs with hf
    · exact ⟨rfl, rfl⟩
    · exact hstart.resolve_left hf
  rw [OpenHandle.query_loaded hrew.2 (.inl hrew.1) (by rw [hitems])]
  exact send_continues hrew.2 (by rw [OpenHandle.load, hitems]) rfl rfl (Nat.zero_le _)

/-! ### The answers of a scan -/

/-- An answer that carries on from the first `k` entries of `l` to the first `k'`. -/
structure Page.Sends (l : List FileInfo) (k : ℕ) (pg : Page) (k' : ℕ) : Prop where
  le : k' ≤ l.length
  records : ∃ t, l.take k' = l.take k ++ t ∧ pg.records = some (t.map FileInfo.record) ∧
    (pg.status = statusSuccess → t ≠ [])
  noMore : pg.status = statusNoMoreFiles ↔ k = l.length
  status : pg.status = statusSuccess ∨ pg.status = statusNoMoreFiles

/-- The answers of a scan, one after the other. -/
inductive Pages (l : List FileInfo) : ℕ → List Page → ℕ → Prop where
  | nil (k : ℕ) : Pages l k [] k
  | cons {k k₁ k₂ : ℕ} {pg : Page} {pages : List Page} :
      pg.Sends l k k₁ → Pages l k₁ pages k₂ → Pages l k (pg :: pages) k₂

/-- What a client reads in an answer is what it carries on with. -/
theorem DirAnswer.Continues.sends {infoClass : UInt8} {l : List FileInfo} {k k' : ℕ} {ans : DirAnswer}
    (h : ans.Continues (extraBytes infoClass) l k k') (pos : ℕ)
    (hnames : ∀ fi ∈ l, (utf16ToBytes fi.name).length < 2 ^ 32) :
    Page.Sends l k ⟨infoClass, ans.status, ans.body pos⟩ k' := by
  have hne : statusSuccess ≠ statusNoMoreFiles := by decide
  cases h with
  | noMoreFiles hk =>
    exact ⟨hk.le, ⟨[], by rw [append_nil], rfl, fun h => absurd h hne.symm⟩, iff_of_true rfl hk, .inr rfl⟩
  | @page t rest ht hl hsize =>
    have htake : l.take (k + t.length) = l.take k ++ t := by
      rw [take_add, hl, take_left]
    have hk : k ≠ l.length := by
      rintro rfl
      rw [drop_length] at hl
      exact ht (append_eq_nil_iff.1 hl.symm).1
    have hmem : ∀ fi ∈ t, fi ∈ l := fun fi hfi =>
      drop_subset k l (hl ▸ mem_append_left rest hfi)
    have hle : k + t.length ≤ l.length := by
      have hlen := congrArg List.length hl
      have hpos := length_pos_of_ne_nil ht
      rw [length_drop, length_append] at hlen
      omega
    refine ⟨hle, ⟨t, htake, ?_, fun _ => ht⟩, iff_of_false hne hk, .inl rfl⟩
    have hbuf : ((DirAnswer.page (chain (extraBytes infoClass) (t.map dirEntry))).body pos).drop 8 =
        chain (extraBytes infoClass) (t.map dirEntry) := by
      rw [DirAnswer.body]
      exact drop_left' (by simp)
    have hfuel : (t.map dirEntry).length ≤
        ((DirAnswer.page (chain (extraBytes infoClass) (t.map dirEntry))).body pos).length := by
      have := length_le_length_chain (extraBytes infoClass) (t.map dirEntry)
      simp only [DirAnswer.body, length_append]
      omega
    refine (if_pos rfl).trans ?_
    dsimp only
    rw [hbuf, readRecords_chain (by simpa using ht) ?_ ?_ hfuel]
    · rw [List.map_map]
      rfl
    · intro e he
      obtain ⟨fi, hfi, rfl⟩ := List.mem_map.1 he
      exact hnames fi (hmem fi hfi)
    · intro e he
      rw [← map_dropLast] at he
      obtain ⟨fi, hfi, rfl⟩ := List.mem_map.1 he
      exact hsize fi hfi

theorem Queried.eq {o : Origin} {msg : Bytes} {s s' : St E}
    (hq : Queried o msg req s pg s')
    (h : s.c.open? o.sid o.tid req.fileId = some oh) {items : List (Except OsError FileInfo)}
    (hi : (E.enumerate oh.h (listingPattern req.fileName) s.sh.world).1 = items) :
    pg = ⟨req.fileInformationClass, (oh.query req items).1.status,
        (oh.query req items).1.body s.c.out.length⟩ ∧
      s'.c.open? o.sid o.tid req.fileId = some (oh.query req items).2 := by
  obtain ⟨s1, hrun, hl⟩ := handleQueryDirectory_ok hq.parsed h hi
  obtain ⟨hst, rfl⟩ := Outcome.ok.inj (hq.ran.symm.trans hrun)
  have hbody : pg.body = (oh.query req items).1.body s.c.out.length :=
    append_cancel_left (hq.out.symm.trans hl.out)
  refine ⟨?_, hl.handle⟩
  obtain ⟨c, st, b⟩ := pg
  exact congr (congr (congrArg Page.mk hq.infoClass) hst) hbody

/-- **The queries of a scan send the listing on from where it is.** -/
theorem Scan.pages {o : Origin} {fid : FileId} {pattern : GoString} {l : List FileInfo} {s s' : St E}
    {pages : List Page} (h : Scan o fid pattern s pages s')
    (hnames : ∀ fi ∈ l, (utf16ToBytes fi.name).length < 2 ^ 32) {k : ℕ}
    (hoh : s.c.open? o.sid o.tid fid = some oh) (hs : oh.Sent pattern l k) :
    ∃ k', Pages l k pages k' ∧ ∃ oh', s'.c.open? o.sid o.tid fid = some oh' := by
  induction h generalizing k oh with
  | nil s => exact ⟨k, .nil k, oh, hoh⟩
  | cons hm hq hfid hflags hpattern _ ih =>
    subst hfid hpattern
    obtain ⟨oh1, hoh1, hd, he, hc, hp⟩ := hm oh hoh
    have hs1 : oh1.Sent _ l k :=
      ⟨hs.le, fun hk => by rw [hd, he, hc, hp]; exact hs.going hk, fun hk => by rw [hd]; exact hs.done hk⟩
    obtain ⟨hpg, hoh2⟩ := hq.eq hoh1 rfl
    obtain ⟨k1, hcont, hs2⟩ := query_continues hs1 hflags _
    obtain ⟨k2, hpages, hlast⟩ := ih hoh2 hs2
    exact ⟨k2, .cons (hpg ▸ hcont.sends _ hnames) hpages, hlast⟩

namespace Pages

variable {l : List FileInfo} {k k' : ℕ} {pages : List Page}

theorem delivered_eq (h : Pages l k pages k') :
    ∃ t, l.take k' = l.take k ++ t ∧ delivered pages = some (t.map FileInfo.record) := by
  induction h with
  | nil k => exact ⟨[], by rw [append_nil], rfl⟩
  | cons hpg _ ih =>
    obtain ⟨t, ht, hr, -⟩ := hpg.records
    obtain ⟨t', ht', hr'⟩ := ih
    refine ⟨t ++ t', by rw [ht', ht, append_assoc], ?_⟩
    rw [delivered, hr, bind_some, hr', map_some, map_append]

theorem le_length (h : Pages l k pages k') (hk : k ≤ l.length) : k' ≤ l.length := by
  induction h with
  | nil => exact hk
  | cons hpg _ ih => exact ih hpg.le

theorem sends_of_mem (h : Pages l k pages k') (hpg : pg ∈ pages) :
    ∃ i j, pg.Sends l i j := by
  induction h with
  | nil => cases hpg
  | @cons k k1 k2 pg' pages hs _ ih =>
    rcases mem_cons.1 hpg with rfl | hmem
    · exact ⟨k, k1, hs⟩
    · exact ih hmem

theorem split {before after : List Page} (h : Pages l k pages k')
    (he : pages = before ++ pg :: after) : ∃ i j, Pages l k before i ∧ pg.Sends l i j := by
  induction before generalizing k pages with
  | nil =>
    subst he
    cases h with
    | @cons _ k1 _ _ _ hs _ => exact ⟨k, k1, .nil k, hs⟩
  | cons pg' before ih =>
    subst he
    cases h with
    | cons hs hrest =>
      obtain ⟨i, j, hb, hpg⟩ := ih hrest rfl
      exact ⟨i, j, .cons hs hb, hpg⟩

end Pages

/-- The answers to a scan deliver the listing `l` page by page. -/
structure Delivers (l : List FileInfo) (pages : List Page) : Prop where
  beginning : ∃ n, delivered pages = some ((l.take n).map FileInfo.record)
  entry : ∀ pg ∈ pages, pg.status = statusSuccess → pg.records ≠ some []
  noMore : ∀ before pg after, pages = before ++ pg :: after →
    (pg.status = statusNoMoreFiles ↔ delivered before = some (l.map FileInfo.record))

theorem Pages.delivers {l : List FileInfo} {pages : List Page} {k : ℕ} (h : Pages l 0 pages k) :
    Delivers l pages := by
  refine ⟨?_, fun pg hpg hst hr => ?_, fun before pg after he => ?_⟩
  · obtain ⟨t, ht, hd⟩ := h.delivered_eq
    exact ⟨k, by rw [hd, ht]; rfl⟩
  · obtain ⟨i, j, hs⟩ := h.sends_of_mem hpg
    obtain ⟨t, -, ht, hne⟩ := hs.records
    rw [hr, some.injEq] at ht
    exact hne hst (map_eq_nil_iff.1 ht.symm)
  · obtain ⟨i, j, hb, hs⟩ := h.split he
    obtain ⟨t, ht, hd⟩ := hb.delivered_eq
    obtain rfl : l.take i = t := ht
    have hle := hb.le_length (Nat.zero_le _)
    rw [hs.noMore, hd, some.injEq]
    constructor
    · rintro rfl
      rw [take_length]
    · intro hmap
      have hlen := congrArg List.length hmap
      rw [length_map, length_map, length_take] at hlen
      omega

/-- A scan that starts with the QUERY_DIRECTORY `msg` delivers `l`, and each of its queries
returns. -/
def ScanDelivers (o : Origin) (msg : Bytes) (req : QueryDirectoryRequest) (s : St E) (l : List FileInfo) : Prop :=
  ∃ first s₁, Queried o msg req s first s₁ ∧
    ∀ pages s₂, Scan o req.fileId (listingPattern req.fileName) s₁ pages s₂ →
      Delivers l (first :: pages) ∧
      ∀ s₃ msg' req', SameScan o req.fileId s₂ s₃ → QueryDirectoryRequest.parse msg' = .ok req' →
        req'.fileId = req.fileId → (handleQueryDirectory o msg').Returns s₃

/-- **A scan delivers the listing it started with, entry by entry, once.** -/
theorem scan_exact {o : Origin} {msg : Bytes} {req : QueryDirectoryRequest} {s : St E} {oh : OpenHandle E}
    {l : List FileInfo} (hreq : QueryDirectoryRequest.parse msg = .ok req)
    (hoh : s.c.open? o.sid o.tid req.fileId = some oh)
    (hstart : req.flags &&& (queryDirRestartScans ||| queryDirReopen) ≠ 0 ∨
      oh.enumEntries = [] ∧ oh.enumDone = false)
    (hlist : untilError (E.enumerate oh.h (listingPattern req.fileName) s.sh.world).1 = (l, none))
    (hnames : ∀ fi ∈ l, (utf16ToBytes fi.name).length < 2 ^ 32) : ScanDelivers o msg req s l := by
  obtain ⟨s₁, hrun, hl⟩ := handleQueryDirectory_ok hreq hoh rfl
  obtain ⟨k, hcont, hsent⟩ := query_starts hlist hstart
  refine ⟨⟨req.fileInformationClass, _, _⟩, s₁, ⟨hreq, hrun, hl.out, rfl⟩, fun pages s₂ hscan => ?_⟩
  obtain ⟨k', hpages, oh', hoh'⟩ := hscan.pages hnames hl.handle hsent
  refine ⟨(Pages.cons (hcont.sends _ hnames) hpages).delivers, fun s₃ msg' req' hsame hreq' hfid => ?_⟩
  obtain ⟨oh₃, hoh₃, -⟩ := hsame oh' hoh'
  obtain ⟨s₄, hrun', -⟩ := handleQueryDirectory_ok hreq' (hfid ▸ hoh₃) rfl
  exact ⟨_, s₄, hrun'⟩

/-! ### A directory to list -/

/-- The backend of `guestEnv` with directories that list `l`. -/
def listingEnv (l : List FileInfo) : Env :=
  { guestEnv with enumerate := fun _ _ w => (l.map .ok, w) }

theorem untilError_ok (l : List FileInfo) : untilError (l.map .ok) = (l, none) := by
  induction l with
  | nil => rfl
  | cons fi l ih => simp [untilError, ih]

/-- A connection with one open. -/
def openedState (E : Env) (w : E.World) (auth : E.Authenticator) (share : Share E) (h : E.Handle) : St E where
  sh := { world := w }
  c :=
    { id := 0
      preauthHash := []
      sessions := (∅ : GoMap UInt64 (Session E)).insert 1
        { auth
          authenticated := true
          trees := (∅ : GoMap UInt32 (Tree E)).insert 0
            { share
              opens := (∅ : GoMap FileId (OpenHandle E)).insert (Arr.zero 16)
                { h, fileId := Arr.zero 16, path := [], deletePending := false } } } }

theorem openedState_open? (E : Env) (w : E.World) (auth : E.Authenticator) (share : Share E) (h : E.Handle) :
    (openedState E w auth share h).c.open? 1 0 (Arr.zero 16) =
      some { h, fileId := Arr.zero 16, path := [], deletePending := false } := rfl

/-- A QUERY_DIRECTORY of everything on that open, with room for `limit` bytes. -/
def queryDirectoryFrame (limit : UInt32) : Bytes :=
  Header.encode { command := cmdQueryDirectory, sessionId := 1 } ++
    put16 33 ++ [0x01, 0x00] ++ put32 0 ++ (Arr.zero 16).1 ++ put16 96 ++ put16 0 ++ put32 limit ++ zeros 1

/-- What it is parsed to. -/
def queryEverything (limit : UInt32) : QueryDirectoryRequest where
  fileInformationClass := 1
  flags := 0
  fileIndex := 0
  fileId := Arr.zero 16
  fileName := []
  outputBufferLength := limit

/-- The open of that connection, over directories that list `l`. -/
def listingState (l : List FileInfo) : St (listingEnv l) :=
  openedState (listingEnv l) (0 : ℕ) () ⟨[], (), false⟩ (0 : ℕ)

/-- The command of the query. -/
def queryOrigin : Origin := ⟨0, 1, 0, cmdQueryDirectory⟩

/-- Two files, which a client with room for nothing gets one by one. -/
def twoFiles : List FileInfo :=
  [⟨[0x61], 5, false, Time.zero, Time.zero, Time.zero, Time.zero⟩,
   ⟨[0x62, 0x62], 7, true, Time.zero, Time.zero, Time.zero, Time.zero⟩]

theorem scan_exact_twoFiles :
    ScanDelivers queryOrigin (queryDirectoryFrame 0) (queryEverything 0) (listingState twoFiles) twoFiles :=
  scan_exact rfl (openedState_open? ..) (.inr ⟨rfl, rfl⟩) (untilError_ok twoFiles) (by decide)

/-- The length of a name of `2^32` bytes is told as zero. -/
theorem not_scanDelivers_longName (fi : FileInfo) (h : (utf16ToBytes fi.name).length = 2 ^ 32) :
    ¬ScanDelivers queryOrigin (queryDirectoryFrame 0) (queryEverything 0) (listingState [fi]) [fi] := by
  rintro ⟨first, s1, hq, hscan⟩
  obtain ⟨n, hn⟩ := (hscan [] s1 (.nil s1)).1.beginning
  obtain ⟨hfirst, -⟩ := hq.eq (openedState_open? ..) rfl
  -- The answer is a page with the one entry.
  have hpage : first = ⟨1, statusSuccess, DirAnswer.body 0 (.page ((dirEntry fi).encode 0))⟩ := hfirst
  have hbuf : first.body.drop 8 = (dirEntry fi).linked 0 0 ++ [] := by
    rw [hpage, append_nil, DirEntry.linked_zero]
    exact drop_left' (by simp)
  have hlink : u32At (first.body.drop 8) 0 = 0 := by rw [hbuf, u32At_linked]
  have hname : u32At (first.body.drop 8) 60 = 0 := by
    rw [hbuf, u32At_linked_name, show (dirEntry fi).name = fi.name from rfl, h]
    rfl
  have hrec : first.records = (readRecord 64 (first.body.drop 8)).map fun r => [r] := by
    obtain ⟨fuel, hfuel⟩ : ∃ f, first.body.length = f + 1 := by rw [hpage]; exact ⟨_, rfl⟩
    have hread : first.records = readRecords 64 first.body.length (first.body.drop 8) := by rw [hpage]; rfl
    rw [hread, hfuel, readRecords, hlink]
    cases readRecord 64 (first.body.drop 8) <;> rfl
  rw [delivered, delivered, hrec] at hn
  cases hr : readRecord 64 (first.body.drop 8) with
  | none => rw [hr] at hn; cases hn
  | some r =>
    have hzero := length_name_le hr
    rw [hname] at hzero
    rw [hr] at hn
    have hlist : [r] = ([fi].take n).map FileInfo.record := some.inj hn
    cases n with
    | zero => cases hlist
    | succ n =>
      have hrfi : r = FileInfo.record fi := by simpa using hlist
      have hlen : r.name.length = 2 ^ 32 := by rw [hrfi]; exact h
      rw [hlen] at hzero
      exact absurd hzero (by decide)

/-- A name of `2^31` letters is not delivered. -/
theorem long_name_unread :
    ¬∀ (E : Env) (o : Origin) (msg : Bytes) (req : QueryDirectoryRequest) (s : St E) (oh : OpenHandle E)
      (l : List FileInfo), QueryDirectoryRequest.parse msg = .ok req →
      s.c.open? o.sid o.tid req.fileId = some oh →
      (req.flags &&& (queryDirRestartScans ||| queryDirReopen) ≠ 0 ∨
        oh.enumEntries = [] ∧ oh.enumDone = false) →
      untilError (E.enumerate oh.h (listingPattern req.fileName) s.sh.world).1 = (l, none) →
      ScanDelivers o msg req s l := by
  intro hall
  have hlen : (utf16ToBytes (List.replicate (2 ^ 31) 0x61)).length = 2 ^ 32 :=
    (length_utf16ToBytes_replicate (2 ^ 31)).trans (by norm_num)
  generalize List.replicate (2 ^ 31) (0x61 : UInt8) = name at hlen
  exact not_scanDelivers_longName ⟨name, 0, false, Time.zero, Time.zero, Time.zero, Time.zero⟩ hlen
    (hall _ _ _ _ _ _ _ rfl (openedState_open? ..) (.inr ⟨rfl, rfl⟩) (untilError_ok _))

end Server
end SmbServer
