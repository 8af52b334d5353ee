/-
# Listings that fail

A QUERY_DIRECTORY that calls Enumerate keeps what it yields in the open.  When Enumerate fails
the query answers with the error, but what came before the error stays in the open under the
pattern of the query, and nothing tells that it is not all.  The next query with the same
pattern pages through it and the one after the last page is answered with
STATUS_NO_MORE_FILES: a truncated listing is reported as finished
(`truncated_listing_finished`).

In a sequence of queries none of which goes on with what a failed Enumerate has left, what is
delivered before STATUS_NO_MORE_FILES is all of what an Enumerate without an error yielded
(`queries_truthful`).  A failed Enumerate that yielded nothing leaves nothing to go on with.
-/

import Mathlib.Data.List.Induction
import SmbServer.Server.Paging

namespace SmbServer
namespace Server

open Wire Vfs List Option

variable {E : Env}
variable {o : Origin} {s : St E} {msg : Bytes} {log : List DirQuery}

/-! ### Sequences of queries -/

/-- The query starts the listing anew. -/
def restarts (req : QueryDirectoryRequest) : Prop := req.flags &&& (queryDirRestartScans ||| queryDirReopen) ≠ 0

/-- A query, what the Enumerate it called yielded and whether that failed, and the answer. -/
structure DirQuery where
  req : QueryDirectoryRequest
  yielded : Option (List FileInfo × Option OsError)
  page : Page

/-- The queries on an open from its state `s` on, in any order and with anything in between
that leaves the listing alone.  That a query calls Enumerate is seen by its call of the
backend. -/
inductive Queries (o : Origin) (fid : FileId) (s : St E) : List DirQuery → St E → Prop where
  | nil : Queries o fid s [] s
  | snoc {log : List DirQuery} {s₁ s₂ s₃ : St E} {msg : Bytes} {req : QueryDirectoryRequest} {oh : OpenHandle E} {pg : Page}
      (before : Queries o fid s log s₁) (meanwhile : SameScan o fid s₁ s₂) (hfid : req.fileId = fid)
      (hoh : s₂.c.open? o.sid o.tid fid = some oh) (query : Queried o msg req s₂ pg s₃) :
      Queries o fid s (log ++ [⟨req, if s₃.sh.trace.length = s₂.sh.trace.length then none else
        some (untilError (E.enumerate oh.h (listingPattern req.fileName) s₂.sh.world).1), pg⟩]) s₃

/-- A listing: the pattern, what Enumerate yielded, its error if it failed, and the answers
since. -/
structure Listing where
  pattern : GoString
  entries : List FileInfo
  err : Option OsError
  pages : List Page

/-- The listing after a query. -/
def Listing.next (g : Option Listing) (a : DirQuery) : Option Listing :=
  match a.yielded with
  | some r => some ⟨listingPattern a.req.fileName, r.1, r.2, [a.page]⟩
  | none => g.map fun g => { g with pages := g.pages ++ [a.page] }

/-- The listing made last. -/
def lastListing (log : List DirQuery) : Option Listing := log.foldl Listing.next none

theorem lastListing_concat (log : List DirQuery) (a : DirQuery) :
    lastListing (log ++ [a]) = Listing.next (lastListing log) a := by
  rw [lastListing, foldl_append]
  rfl

/-- The answer carries the entries `t`. -/
structure Page.Carries (pg : Page) (t : List FileInfo) : Prop where
  page : pg.status = statusSuccess → ∃ pos, pg.body = (DirAnswer.page (chain (extraBytes pg.infoClass)
    (t.map dirEntry))).body pos
  nothing : pg.status ≠ statusSuccess → t = []

/-- The answers carry the entries `l`, one after the other. -/
inductive Carried : List Page → List FileInfo → Prop where
  | nil : Carried [] []
  | snoc {pages : List Page} {l t : List FileInfo} {pg : Page} (before : Carried pages l) (h : pg.Carries t) :
      Carried (pages ++ [pg]) (l ++ t)

/-- **A failed Enumerate is never taken for a complete one**: a query whose Enumerate fails is
answered with an error that says more than that there are no files left, and when that is said
the answers carry all that an Enumerate without an error has yielded. -/
structure Truthful (log : List DirQuery) : Prop where
  failed : ∀ a ∈ log, ∀ l e, a.yielded = some (l, some e) →
    a.page.status ≠ statusSuccess ∧ a.page.status ≠ statusNoMoreFiles
  finished : ∀ before a, before ++ [a] <+: log → a.page.status = statusNoMoreFiles →
    ∃ g, lastListing (before ++ [a]) = some g ∧ g.err = none ∧ Carried g.pages g.entries

/-- A query does not go on with what a failed Enumerate has left. -/
def Afresh (g : Option Listing) (req : QueryDirectoryRequest) : Prop :=
  ∀ g', g = some g' → g'.err ≠ none → g'.entries ≠ [] → restarts req ∨ listingPattern req.fileName ≠ g'.pattern

/-! ### When a query calls Enumerate -/

/-- The query calls Enumerate. -/
def OpenHandle.Calls (req : QueryDirectoryRequest) (oh : OpenHandle E) : Prop :=
  (oh.rewind req.flags).enumDone = false ∧ (oh.rewind req.flags).Unlisted (listingPattern req.fileName)

theorem sendEntries_shared (o : Origin) (req : QueryDirectoryRequest) (oh : OpenHandle E) :
    Go.Keeps (fun s : St E => s.sh) (sendEntries o req oh) := by
  unfold sendEntries
  split_ifs
  · exact .bind (fun _ => rfl) fun _ => fun _ => rfl
  · exact .bind (fun _ => rfl) fun s => .bind (fun _ => rfl) fun _ => fun _ => rfl

theorem listEntries_trace {req : QueryDirectoryRequest} {oh : OpenHandle E}
    (hu : oh.Unlisted (listingPattern req.fileName)) :
    ∃ s', listEntries o req.fileId (listingPattern req.fileName) oh s =
        .ok (oh.load (listingPattern req.fileName) (E.enumerate oh.h (listingPattern req.fileName) s.sh.world).1,
          (untilError (E.enumerate oh.h (listingPattern req.fileName) s.sh.world).1).2) s' ∧
      s'.sh.trace = .call (some o) (.enumerate oh.h (listingPattern req.fileName)) :: s.sh.trace := by
  have hrun : listEntries o req.fileId (listingPattern req.fileName) oh = _ := if_pos hu
  rw [hrun]
  exact ⟨_, rfl, rfl⟩

/-- **A query calls Enumerate where the open holds no listing for it.** -/
theorem handleQueryDirectory_calls {req : QueryDirectoryRequest} {s' : St E}
    {oh : OpenHandle E} {status : UInt32} (hreq : QueryDirectoryRequest.parse msg = .ok req)
    (h : s.c.open? o.sid o.tid req.fileId = some oh) (hrun : handleQueryDirectory o msg s = .ok status s') :
    s'.sh.trace.length = s.sh.trace.length ↔ ¬oh.Calls req := by
  obtain ⟨tr, ht, -⟩ := Conn.open?_eq_some.1 h
  obtain ⟨s1, e1, ⟨h1, -⟩, hsh1⟩ := setOpen_left (oh.rewind req.flags) h
  have hstart : handleQueryDirectory o msg s = queryRewound o req (oh.rewind req.flags) s1 := by
    rw [handleQueryDirectory, hreq]
    exact (withOpen_apply _ ht h).trans (Go.bind_ok e1)
  rw [hstart, queryRewound] at hrun
  rw [← hsh1]
  cases hd : (oh.rewind req.flags).enumDone with
  | true =>
    rw [hd, if_pos rfl] at hrun
    obtain ⟨-, rfl⟩ := Outcome.ok.inj hrun
    exact iff_of_true rfl fun hc => absurd (hd.symm.trans hc.1) (by decide)
  | false =>
    rw [hd, if_neg (by decide)] at hrun
    by_cases hu : (oh.rewind req.flags).Unlisted (listingPattern req.fileName)
    · obtain ⟨s2, e2, htrace⟩ := listEntries_trace (o := o) (s := s1) hu
      rw [Go.bind_ok e2] at hrun
      have hkept : s'.sh = s2.sh := by
        cases herr : (untilError (E.enumerate (oh.rewind req.flags).h (listingPattern req.fileName) s1.sh.world).1).2 with
        | some e =>
          simp only [herr] at hrun
          obtain ⟨-, rfl⟩ := Outcome.ok.inj hrun
          rfl
        | none =>
          simp only [herr] at hrun
          have hkeep := sendEntries_shared o req ((oh.rewind req.flags).load (listingPattern req.fileName)
            (E.enumerate (oh.rewind req.flags).h (listingPattern req.fileName) s1.sh.world).1) s2
          rwa [hrun] at hkeep
      refine iff_of_false ?_ (not_not.2 ⟨hd, hu⟩)
      rw [hkept, htrace, length_cons]
      exact Nat.succ_ne_self _
    · refine iff_of_true ?_ fun hc => hu hc.2
      rw [Go.bind_ok (listEntries_keep hu)] at hrun
      have hkeep := sendEntries_shared o req (oh.rewind req.flags) s1
      rw [show sendEntries o req (oh.rewind req.flags) s1 = .ok status s' from hrun] at hkeep
      exact congrArg (fun sh => sh.trace.length) hkeep

/-! ### One query -/

/-- What the open remembers of the listing made last. -/
inductive Follows (oh : OpenHandle E) : Option Listing → Prop where
  | fresh (he : oh.enumEntries = []) (hd : oh.enumDone = false) : Follows oh none
  | failed {g : Listing} {e : OsError} (hg : g.err = some e) (he : oh.enumEntries = g.entries)
      (hp : oh.enumPattern = g.pattern) (hd : oh.enumDone = false) : Follows oh (some g)
  | sent {g : Listing} {k : ℕ} (hg : g.err = none) (hs : oh.Sent g.pattern g.entries k)
      (hc : Carried g.pages (g.entries.take k)) : Follows oh (some g)

theorem DirAnswer.Continues.carries {infoClass : UInt8} {l : List FileInfo} {k k' : ℕ} {ans : DirAnswer}
    (h : ans.Continues (extraBytes infoClass) l k k') (pos : ℕ) :
    ∃ t, Page.Carries ⟨infoClass, ans.status, ans.body pos⟩ t ∧ l.take k' = l.take k ++ t ∧
      (ans.status = statusNoMoreFiles → k' = l.length) := by
  cases h with
  | @page t rest ht hl hsize =>
    refine ⟨t, ⟨fun _ => ⟨pos, rfl⟩, fun h => absurd rfl h⟩, ?_, fun h => ?_⟩
    · rw [take_add, hl, take_left]
    · exact absurd h (show statusSuccess ≠ statusNoMoreFiles by decide)
  | noMoreFiles hk =>
    refine ⟨[], ⟨fun h => ?_, fun _ => rfl⟩, (append_nil _).symm, fun _ => hk⟩
    exact absurd h (show statusNoMoreFiles ≠ statusSuccess by decide)

section

variable {oh : OpenHandle E} {req : QueryDirectoryRequest} {g : Option Listing}

theorem OpenHandle.calls_of_restarts (h : restarts req) : oh.Calls req := by
  have hrew : oh.rewind req.flags = { oh with enumDone := false, enumCursor := 0, enumEntries := [] } := if_pos h
  rw [OpenHandle.Calls, hrew]
  exact ⟨rfl, .inl rfl⟩

/-- A query that does not call Enumerate goes on with a listing that is complete. -/
theorem Follows.goes_on (h : Follows oh g) (hok : Afresh g req) (hcalls : ¬oh.Calls req)
    (items : List (Except OsError FileInfo)) : ∃ g' k k', g = some g' ∧ g'.err = none ∧
      Carried g'.pages (g'.entries.take k) ∧
      (oh.query req items).1.Continues (extraBytes req.fileInformationClass) g'.entries k k' ∧
      (oh.query req items).2.Sent g'.pattern g'.entries k' := by
  have hflags : ¬restarts req := fun h => hcalls (OpenHandle.calls_of_restarts h)
  have hrew : oh.rewind req.flags = oh := if_neg hflags
  have hlisted : oh.enumDone = false → ¬oh.Unlisted (listingPattern req.fileName) := fun hd hu => by
    refine hcalls ⟨?_, ?_⟩
    · rw [hrew]
      exact hd
    · rw [hrew]
      exact hu
  cases h with
  | fresh he hd => exact absurd (.inl he) (hlisted hd)
  | @failed g e hg he hp hd =>
    have hentries : g.entries ≠ [] := fun h => hlisted hd (.inl (he.trans h))
    have hpattern : listingPattern req.fileName = g.pattern := by
      by_contra hne
      exact hlisted hd (.inr fun heq => hne (heq.symm.trans hp))
    have hfresh := hok g rfl (by rw [hg]; exact some_ne_none e) hentries
    exact absurd hpattern (hfresh.resolve_left hflags)
  | @sent g k hg hs hc =>
    rcases hs.le.lt_or_eq with hlt | heq
    · obtain ⟨hd, he, hcur, hp⟩ := hs.going hlt
      rw [OpenHandle.query_listed (by rw [hrew]; exact hd) (by rw [hrew]; exact hlisted hd), hrew]
      obtain ⟨k', hcont⟩ := send_continues hd he hcur hp hs.le
      exact ⟨g, k, k', rfl, hg, hc, hcont⟩
    · rw [OpenHandle.query_done (by rw [hrew]; exact hs.done heq), hrew]
      exact ⟨g, k, k, rfl, hg, hc, .noMoreFiles heq, hs⟩

/-- **A query keeps the open and its listing together.** -/
theorem Follows.query (h : Follows oh g) (hok : Afresh g req) (items : List (Except OsError FileInfo)) (pos : ℕ)
    {a : DirQuery} (hreq : a.req = req)
    (hpage : a.page = ⟨req.fileInformationClass, (oh.query req items).1.status, (oh.query req items).1.body pos⟩)
    (hcalls : oh.Calls req → a.yielded = some (untilError items)) (hno : ¬oh.Calls req → a.yielded = none) :
    Follows (oh.query req items).2 (Listing.next g a) ∧
      (∀ l e, a.yielded = some (l, some e) → a.page.status ≠ statusSuccess ∧ a.page.status ≠ statusNoMoreFiles) ∧
      (a.page.status = statusNoMoreFiles →
        ∃ g', Listing.next g a = some g' ∧ g'.err = none ∧ Carried g'.pages g'.entries) := by
  -- An answer that continues a complete listing.
  have hcont : ∀ {g' : Listing} {k k' : ℕ} {pages : List Page}, g'.err = none → Carried pages (g'.entries.take k) →
      Listing.next g a = some g' → g'.pages = pages ++ [a.page] →
      (oh.query req items).1.Continues (extraBytes req.fileInformationClass) g'.entries k k' →
      (oh.query req items).2.Sent g'.pattern g'.entries k' →
      Follows (oh.query req items).2 (Listing.next g a) ∧ (a.page.status = statusNoMoreFiles →
        ∃ g', Listing.next g a = some g' ∧ g'.err = none ∧ Carried g'.pages g'.entries) := by
    intro g' k k' pages hg hc hnext hpages hcont hsent
    obtain ⟨t, ht, htake, hlast⟩ := hcont.carries pos
    rw [← hpage] at ht
    have hcarried : Carried g'.pages (g'.entries.take k') := by
      rw [hpages, htake]
      exact .snoc hc ht
    refine ⟨hnext ▸ .sent hg hsent hcarried, fun hstatus => ⟨g', hnext, hg, ?_⟩⟩
    rw [hpage] at hstatus
    rwa [hlast hstatus, take_length] at hcarried
  by_cases hc : oh.Calls req
  · have hy := hcalls hc
    have hnext : Listing.next g a =
        some ⟨listingPattern req.fileName, (untilError items).1, (untilError items).2, [a.page]⟩ := by
      unfold Listing.next
      rw [hy, hreq]
    cases herr : (untilError items).2 with
    | some e =>
      have hquery := OpenHandle.query_failed hc.1 hc.2 herr
      have hstatus : a.page.status = osErrToStatus e := by rw [hpage, hquery]; rfl
      have hne : osErrToStatus e ≠ statusSuccess ∧ osErrToStatus e ≠ statusNoMoreFiles :=
        ⟨osErrToStatus_ne e, by cases e <;> decide⟩
      refine ⟨?_, fun l e' _ => by rw [hstatus]; exact hne, fun h => absurd (hstatus.symm.trans h) hne.2⟩
      rw [hnext, hquery]
      exact .failed herr rfl rfl hc.1
    | none =>
      have hloaded : ∃ k', (oh.query req items).1.Continues (extraBytes req.fileInformationClass) (untilError items).1 0 k' ∧
          (oh.query req items).2.Sent (listingPattern req.fileName) (untilError items).1 k' := by
        rw [OpenHandle.query_loaded hc.1 hc.2 herr]
        exact send_continues hc.1 rfl rfl rfl (Nat.zero_le _)
      obtain ⟨k', hk', hsent⟩ := hloaded
      obtain ⟨hfollows, hfin⟩ := hcont herr (.nil : Carried [] _) hnext rfl hk' hsent
      refine ⟨hfollows, fun l e he => ?_, hfin⟩
      rw [hy, some.injEq] at he
      rw [he] at herr
      cases herr
  · obtain ⟨g', k, k', rfl, hg, hcar, hk', hsent⟩ := h.goes_on hok hc items
    have hnext : Listing.next (some g') a = some { g' with pages := g'.pages ++ [a.page] } := by
      unfold Listing.next
      rw [hno hc]
      rfl
    obtain ⟨hfollows, hfin⟩ := hcont (show ({ g' with pages := g'.pages ++ [a.page] } : Listing).err = none from hg)
      hcar hnext rfl hk' hsent
    refine ⟨hfollows, fun l e he => ?_, hfin⟩
    rw [hno hc] at he
    cases he

end

/-! ### All queries -/

theorem Follows.sameScan {oh oh' : OpenHandle E} {g : Option Listing} (h : Follows oh g) (hd : oh'.enumDone = oh.enumDone)
    (he : oh'.enumEntries = oh.enumEntries) (hc : oh'.enumCursor = oh.enumCursor)
    (hp : oh'.enumPattern = oh.enumPattern) : Follows oh' g := by
  cases h with
  | fresh he0 hd0 => exact .fresh (he.trans he0) (hd.trans hd0)
  | failed hg he0 hp0 hd0 => exact .failed hg (he.trans he0) (hp.trans hp0) (hd.trans hd0)
  | sent hg hs hcar =>
    refine .sent hg ⟨hs.le, fun hk => ?_, fun hk => hd.trans (hs.done hk)⟩ hcar
    rw [hd, he, hc, hp]
    exact hs.going hk

/-- No query goes on with what a failed Enumerate has left. -/
def AllAfresh (log : List DirQuery) : Prop := ∀ before a, before ++ [a] <+: log → Afresh (lastListing before) a.req

theorem Queries.follows {fid : FileId} {s' : St E} {oh : OpenHandle E}
    (hoh : s.c.open? o.sid o.tid fid = some oh) (hfresh : oh.enumEntries = [] ∧ oh.enumDone = false)
    (h : Queries o fid s log s') (hok : AllAfresh log) :
    Truthful log ∧ ∃ oh', s'.c.open? o.sid o.tid fid = some oh' ∧ Follows oh' (lastListing log) := by
  induction h with
  | nil =>
    refine ⟨⟨nofun, fun before a hpre => ?_⟩, oh, hoh, .fresh hfresh.1 hfresh.2⟩
    exact absurd (prefix_nil.1 hpre) (by simp)
  | @snoc log s1 s2 s3 msg req oh2 pg before meanwhile hfid hoh2 query ih =>
    subst hfid
    obtain ⟨htruth, oh1, hoh1, hfollows⟩ := ih fun before a hpre => hok before a (hpre.trans (prefix_append _ _))
    obtain ⟨oh', hoh', hd, he, hc, hp⟩ := meanwhile oh1 hoh1
    obtain rfl := some.inj (hoh'.symm.trans hoh2)
    have htrace := handleQueryDirectory_calls query.parsed hoh2 query.ran
    obtain ⟨hpg, hoh3⟩ := query.eq hoh2 rfl
    have hafresh : Afresh (lastListing log) req := hok log _ prefix_rfl
    obtain ⟨hfollows', hfailed, hfin⟩ := (hfollows.sameScan hd he hc hp).query hafresh
      (E.enumerate oh'.h (listingPattern req.fileName) s2.sh.world).1 s2.c.out.length (a := ⟨req, _, pg⟩) rfl hpg
      (fun hcalls => if_neg fun heq => htrace.1 heq hcalls) fun hcalls => if_pos (htrace.2 hcalls)
    rw [← lastListing_concat] at hfollows' hfin
    refine ⟨⟨fun a ha => ?_, fun before a hpre => ?_⟩, _, hoh3, hfollows'⟩
    · rcases mem_append.1 ha with ha | ha
      · exact htruth.failed a ha
      · obtain rfl := mem_singleton.1 ha
        exact hfailed
    · rcases prefix_concat_iff.1 hpre with heq | hpre
      · obtain ⟨rfl, hlast⟩ := append_inj' heq rfl
        obtain rfl := singleton_inj.1 hlast
        exact hfin
      · exact htruth.finished before a hpre

/-- **In a sequence of queries none of which goes on with what a failed Enumerate has left, no
failed Enumerate is taken for a complete one.** -/
theorem queries_truthful {o : Origin} {fid : FileId} {s s' : St E} {log : List DirQuery} {oh : OpenHandle E}
    (hoh : s.c.open? o.sid o.tid fid = some oh) (hfresh : oh.enumEntries = [] ∧ oh.enumDone = false)
    (h : Queries o fid s log s') (hok : AllAfresh log) : Truthful log :=
  (h.follows hoh hfresh hok).1

/-! ### The same query again and again -/

instance (req : QueryDirectoryRequest) (oh : OpenHandle E) : Decidable (oh.Calls req) :=
  inferInstanceAs (Decidable (_ ∧ _))

theorem Queries.ask {req : QueryDirectoryRequest} {s1 : St E}
    {oh : OpenHandle E} (h : Queries o req.fileId s log s1) (hreq : QueryDirectoryRequest.parse msg = .ok req)
    (hoh : s1.c.open? o.sid o.tid req.fileId = some oh) {items : List (Except OsError FileInfo)}
    (hi : ∀ w, (E.enumerate oh.h (listingPattern req.fileName) w).1 = items) :
    ∃ s2 body, Queries o req.fileId s (log ++ [⟨req, if oh.Calls req then some (untilError items) else none,
        ⟨req.fileInformationClass, (oh.query req items).1.status, body⟩⟩]) s2 ∧
      s2.c.open? o.sid o.tid req.fileId = some (oh.query req items).2 := by
  obtain ⟨s2, hrun, hleft⟩ := handleQueryDirectory_ok hreq hoh (hi s1.sh.world)
  have htrace := handleQueryDirectory_calls hreq hoh hrun
  have hquery : Queried o msg req s1 ⟨req.fileInformationClass, (oh.query req items).1.status,
      (oh.query req items).1.body s1.c.out.length⟩ s2 := ⟨hreq, hrun, hleft.out, rfl⟩
  have hyielded : (if s2.sh.trace.length = s1.sh.trace.length then none else
      some (untilError (E.enumerate oh.h (listingPattern req.fileName) s1.sh.world).1)) =
        if oh.Calls req then some (untilError items) else none := by
    rw [hi]
    by_cases hc : oh.Calls req
    · rw [if_neg fun heq => htrace.1 heq hc, if_pos hc]
    · rw [if_pos (htrace.2 hc), if_neg hc]
  have hnext := h.snoc (fun oh hoh => ⟨oh, hoh, rfl, rfl, rfl, rfl⟩) rfl hoh hquery
  rw [hyielded] at hnext
  exact ⟨s2, _, hnext, hleft.handle⟩

/-- The backend of `guestEnv` with directories of which Enumerate yields `items`. -/
def itemsEnv (items : List (Except OsError FileInfo)) : Env :=
  { guestEnv with enumerate := fun _ _ w => (items, w) }

/-- A connection with one open over them. -/
def itemsState (items : List (Except OsError FileInfo)) : St (itemsEnv items) :=
  openedState (itemsEnv items) (0 : ℕ) () ⟨[], (), false⟩ (0 : ℕ)

/-- The open. -/
def itemsOpen (items : List (Except OsError FileInfo)) : OpenHandle (itemsEnv items) :=
  { h := (0 : ℕ), fileId := Arr.zero 16, path := [], deletePending := false }

/-- What Enumerate yields in the same query made `n` times, and the statuses. -/
def replies (req : QueryDirectoryRequest) (items : List (Except OsError FileInfo)) :
    ℕ → OpenHandle E → List (Option (List FileInfo × Option OsError) × UInt32)
  | 0, _ => []
  | n + 1, oh => (if oh.Calls req then some (untilError items) else none, (oh.query req items).1.status) ::
      replies req items n (oh.query req items).2

theorem Queries.again {req : QueryDirectoryRequest} {s1 : St E}
    {oh : OpenHandle E} {items : List (Except OsError FileInfo)} (hreq : QueryDirectoryRequest.parse msg = .ok req)
    (hi : ∀ h w, (E.enumerate h (listingPattern req.fileName) w).1 = items) (n : ℕ)
    (h : Queries o req.fileId s log s1) (hoh : s1.c.open? o.sid o.tid req.fileId = some oh) :
    ∃ log' s2, Queries o req.fileId s (log ++ log') s2 ∧
      log'.map (fun a => (a.yielded, a.page.status)) = replies req items n oh := by
  induction n generalizing log s1 oh with
  | zero => exact ⟨[], s1, by rwa [append_nil], rfl⟩
  | succ n ih =>
    obtain ⟨s2, body, h2, hoh2⟩ := h.ask hreq hoh (hi oh.h)
    obtain ⟨log', s3, h3, hlog⟩ := ih h2 hoh2
    rw [append_assoc] at h3
    refine ⟨_, s3, h3, ?_⟩
    rw [singleton_append, map_cons, hlog]
    rfl

/-- A query of everything made three times on a new open. -/
theorem queries_three (items : List (Except OsError FileInfo)) : ∃ (log : List DirQuery) (s' : St (itemsEnv items)),
    Queries queryOrigin (Arr.zero 16) (itemsState items) log s' ∧
      log.map (fun a => (a.yielded, a.page.status)) = replies (queryEverything 0) items 3 (itemsOpen items) := by
  have hnil : Queries queryOrigin (queryEverything 0).fileId (itemsState items) [] (itemsState items) := .nil
  have hreq : QueryDirectoryRequest.parse (queryDirectoryFrame 0) = .ok (queryEverything 0) := rfl
  exact hnil.again hreq (fun _ _ => rfl) 3 (openedState_open? ..)

/-- The listing made last is complete where no Enumerate fails. -/
theorem lastListing_complete (h : ∀ a ∈ log, ∀ r, a.yielded = some r → r.2 = none) {g : Listing}
    (hg : lastListing log = some g) : g.err = none := by
  induction log using reverseRecOn generalizing g with
  | nil => cases hg
  | append_singleton log a ih =>
    rw [lastListing_concat, Listing.next] at hg
    cases hy : a.yielded with
    | some r =>
      rw [hy] at hg
      cases hg
      exact h a (by simp) r hy
    | none =>
      rw [hy] at hg
      obtain ⟨g', hg', rfl⟩ := map_eq_some_iff.1 hg
      have hcomplete : g'.err = none := ih (fun a ha => h a (mem_append_left _ ha)) hg'
      exact hcomplete

/-- A file. -/
def someFile : FileInfo := ⟨[0x61], 5, false, Time.zero, Time.zero, Time.zero, Time.zero⟩

/-- A directory listed without an error. -/
theorem queries_truthful_listed : ∃ (log : List DirQuery) (s' : St (itemsEnv [.ok someFile])),
    Queries queryOrigin (Arr.zero 16) (itemsState [.ok someFile]) log s' ∧
      log.map (fun a => (a.yielded, a.page.status)) =
        [(some ([someFile], none), statusSuccess), (none, statusNoMoreFiles), (none, statusNoMoreFiles)] ∧
      Truthful log := by
  obtain ⟨log, s', hq, hmap⟩ := queries_three [.ok someFile]
  have hreplies : replies (queryEverything 0) [.ok someFile] 3 (itemsOpen [.ok someFile]) =
    [(some ([someFile], none), statusSuccess), (none, statusNoMoreFiles), (none, statusNoMoreFiles)] := rfl
  refine ⟨log, s', hq, hmap.trans hreplies, queries_truthful (openedState_open? ..) ⟨rfl, rfl⟩ hq ?_⟩
  have hcomplete : ∀ a ∈ log, ∀ r, a.yielded = some r → r.2 = none := by
    intro a ha r hr
    have hmem : (a.yielded, a.page.status) ∈ log.map fun a => (a.yielded, a.page.status) := List.mem_map_of_mem ha
    rw [hmap, hreplies, hr] at hmem
    simp only [List.mem_cons, Prod.mk.injEq, Option.some.injEq, reduceCtorEq, false_and, List.not_mem_nil, or_false] at hmem
    rw [hmem.1]
  intro before a hpre g hg herr
  refine absurd (lastListing_complete (fun b hb => hcomplete b ?_) hg) herr
  exact hpre.subset (List.mem_append_left _ hb)

/-- **A listing that failed is reported as finished.** -/
theorem truncated_listing_finished : ¬∀ (E : Env) (o : Origin) (fid : FileId) (s s' : St E) (log : List DirQuery)
    (oh : OpenHandle E), s.c.open? o.sid o.tid fid = some oh → oh.enumEntries = [] ∧ oh.enumDone = false →
      Queries o fid s log s' → Truthful log := by
  intro hall
  let items : List (Except OsError FileInfo) := [.ok someFile, .error .other]
  obtain ⟨log, s', hq, hmap⟩ := queries_three items
  have hreplies : replies (queryEverything 0) items 3 (itemsOpen items) =
    [(some ([someFile], some .other), statusAccessDenied), (none, statusSuccess), (none, statusNoMoreFiles)] := rfl
  rw [hreplies] at hmap
  have hlen : log.length = 3 := by
    have hlen := congrArg List.length hmap
    rwa [List.length_map] at hlen
  obtain ⟨a, b, c, rfl⟩ := List.length_eq_three.1 hlen
  simp only [List.map_cons, List.map_nil, List.cons.injEq, Prod.mk.injEq, and_true] at hmap
  obtain ⟨⟨ha, -⟩, ⟨hb, -⟩, hc, hlast⟩ := hmap
  have htruth := hall _ _ _ _ _ _ _ (openedState_open? ..) ⟨rfl, rfl⟩ hq
  obtain ⟨g, hg, herr, -⟩ := htruth.finished [a, b] c List.prefix_rfl hlast
  simp only [lastListing, List.cons_append, List.nil_append, List.foldl, Listing.next, ha, hb, hc, Option.map_some,
    Option.some.injEq] at hg
  subst hg
  cases herr

end Server
end SmbServer
