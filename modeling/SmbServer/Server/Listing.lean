/-
# Listing a directory

What `handleQueryDirectory` does, said once for the results about it.  The loop
over the entries is two things: how many entries it takes (`taken`, which follows
its estimate of their sizes), and a chain of these (`packEntries_cons`).  The
handler as a whole is a function of the open and of what `Enumerate` would yield:
`OpenHandle.query` is its answer and the open it leaves (`handleQueryDirectory_ok`).
-/

import SmbServer.Server.Files
import SmbServer.Wire.Decoding
import SmbServer.Wire.Directory

namespace SmbServer
namespace Server

open Wire Vfs List Option

variable {E : Env}
variable {extra limit : ℕ} {fi : FileInfo} {l : List FileInfo}

/-! ### The loop over the entries -/

/-- The bytes an information class puts between the fields of an entry and its name. -/
def extraBytes (infoClass : UInt8) : ℕ := if infoClass = fileIdBothDirectoryInformation then 40 else 0

theorem entryLayout_eq (infoClass : UInt8) :
    entryLayout infoClass = ⟨64 + extraBytes infoClass, DirEntry.encode (extraBytes infoClass)⟩ := by
  unfold entryLayout extraBytes
  split_ifs <;> rfl

/-- What an entry takes up in the answer. -/
def entrySize (extra : ℕ) (fi : FileInfo) : ℕ := ((dirEntry fi).encode extra).length

/-- What `handleQueryDirectory` expects an entry to take up. -/
def estimate (extra : ℕ) (fi : FileInfo) : ℕ := 64 + extra + fi.name.length * 2

/-- What a list of entries takes up. -/
def listSpan (extra : ℕ) (l : List FileInfo) : ℕ := (l.map (entrySize extra)).sum

@[simp] theorem listSpan_nil (extra : ℕ) : listSpan extra [] = 0 := rfl

@[simp] theorem listSpan_cons (extra : ℕ) (fi : FileInfo) (l : List FileInfo) :
    listSpan extra (fi :: l) = entrySize extra fi + listSpan extra l := by
  simp [listSpan]

@[simp] theorem listSpan_append (extra : ℕ) (l l' : List FileInfo) :
    listSpan extra (l ++ l') = listSpan extra l + listSpan extra l' := by
  simp [listSpan]

theorem entrySize_le_listSpan (h : fi ∈ l) :
    entrySize extra fi ≤ listSpan extra l := by
  obtain ⟨a, b, rfl⟩ := append_of_mem h
  rw [listSpan_append, listSpan_cons]
  omega

theorem length_chain_dirEntry (extra : ℕ) (l : List FileInfo) :
    (chain extra (l.map dirEntry)).length = listSpan extra l := by
  rw [length_chain, List.map_map]
  rfl

/-- How many more entries the loop takes when `used` bytes are there already. -/
def taken (extra limit : ℕ) : ℕ → List FileInfo → ℕ
  | _, [] => 0
  | used, fi :: rest =>
    if limit < used + estimate extra fi then 0
    else taken extra limit (used + entrySize extra fi) rest + 1

theorem taken_le (extra limit used : ℕ) (l : List FileInfo) : taken extra limit used l ≤ l.length := by
  induction l generalizing used with
  | nil => exact le_rfl
  | cons fi l ih =>
    rw [taken, length_cons]
    split_ifs
    · exact Nat.zero_le _
    · exact Nat.succ_le_succ (ih _)

/-- The loop after an entry `fi` with the bytes `b` before it. -/
theorem packEntries_some (extra limit : ℕ) (b : Bytes) (fi : FileInfo) (l : List FileInfo) :
    packEntries ⟨64 + extra, DirEntry.encode extra⟩ limit (some b.length) (b ++ (dirEntry fi).encode extra) l =
      (b ++ chain extra ((fi :: l.take (taken extra limit (b.length + entrySize extra fi) l)).map dirEntry),
        taken extra limit (b.length + entrySize extra fi) l) := by
  induction l generalizing b fi with
  | nil => simp [packEntries, taken, chain, DirEntry.linked_zero]
  | cons fi' l ih =>
    have hlen : (b ++ (dirEntry fi).encode extra).length = b.length + entrySize extra fi := by
      rw [length_append, entrySize]
    rw [packEntries, taken]
    by_cases hfull : limit < b.length + entrySize extra fi + estimate extra fi'
    · rw [if_pos hfull, if_pos ⟨rfl, by rw [hlen]; exact hfull⟩]
      simp [chain, DirEntry.linked_zero]
    · -- The link of the last entry is set to its length, and the new entry follows it.
      have hlink : copyAt (b ++ (dirEntry fi).encode extra ++ (dirEntry fi').encode extra) b.length
          (put32 (UInt32.ofNat (b.length + entrySize extra fi - b.length))) =
          b ++ (dirEntry fi).linked extra (UInt32.ofNat (entrySize extra fi)) ++
            (dirEntry fi').encode extra := by
        rw [Nat.add_sub_cancel_left, append_assoc, ← Nat.add_zero b.length, copyAt_append_right,
          DirEntry.copyAt_encode, append_assoc]
      have hb : b.length + entrySize extra fi =
          (b ++ (dirEntry fi).linked extra (UInt32.ofNat (entrySize extra fi))).length := by
        rw [length_append, DirEntry.length_linked, entrySize]
      rw [if_neg hfull, if_neg fun h => hfull (by rw [← hlen]; exact h.2)]
      simp only [hlen, hlink]
      rw [hb, ih]
      simp only [take_succ_cons, map_cons, chain, append_assoc]
      rfl

/-- **The answer is the chain of the entries taken, and at least one is.** -/
theorem packEntries_cons (extra limit : ℕ) (fi : FileInfo) (l : List FileInfo) :
    packEntries ⟨64 + extra, DirEntry.encode extra⟩ limit none [] (fi :: l) =
      (chain extra ((fi :: l.take (taken extra limit (entrySize extra fi) l)).map dirEntry),
        taken extra limit (entrySize extra fi) l + 1) := by
  have h := packEntries_some extra limit [] fi l
  simp only [length_nil, nil_append, Nat.zero_add] at h
  rw [packEntries]
  simp only [isSome_none, Bool.false_eq_true, false_and, if_false, nil_append, length_nil, h]

/-! ### Which entries are taken -/

/-- The estimate lets in every entry of the list but the first, which needs no leave. -/
def LetIn (extra limit : ℕ) (l : List FileInfo) : Prop :=
  ∀ pre fi, pre ++ [fi] <+: l → pre ≠ [] → listSpan extra pre + estimate extra fi ≤ limit

/-- What the loop takes after `pre`, which it took before. -/
theorem prefix_taken_iff {pre t : List FileInfo} (ht : t <+: l) :
    t <+: l.take (taken extra limit (listSpan extra pre) l) ↔
      ∀ a fi, a ++ [fi] <+: t → listSpan extra (pre ++ a) + estimate extra fi ≤ limit := by
  induction l generalizing pre t with
  | nil =>
    obtain rfl := prefix_nil.1 ht
    simp
  | cons fi l ih =>
    cases t with
    | nil => simp
    | cons fi' t =>
      obtain ⟨rfl, hl⟩ := cons_prefix_cons.1 ht
      rw [taken]
      split_ifs with hfull
      · refine iff_of_false (by simp) fun h => ?_
        have := h [] fi' (by simp)
        rw [append_nil] at this
        omega
      · have hpre : listSpan extra pre + entrySize extra fi' = listSpan extra (pre ++ [fi']) := by simp
        rw [take_succ_cons, cons_prefix_cons, hpre, ih hl]
        constructor
        · rintro ⟨-, h⟩ a x hax
          cases a with
          | nil =>
            obtain ⟨rfl, -⟩ := cons_prefix_cons.1 hax
            rw [append_nil]
            omega
          | cons y a =>
            obtain ⟨rfl, hat⟩ := cons_prefix_cons.1 hax
            simpa using h a x hat
        · intro h
          refine ⟨rfl, fun a x hax => ?_⟩
          have := h (fi' :: a) x (cons_prefix_cons.2 ⟨rfl, hax⟩)
          simpa using this

/-- **The entries of a page are the longest beginning of the listing that is
admitted.** -/
theorem prefix_page_iff {t : List FileInfo} (ht : t <+: fi :: l) :
    t <+: fi :: l.take (taken extra limit (entrySize extra fi) l) ↔ LetIn extra limit t := by
  cases t with
  | nil => exact iff_of_true nil_prefix fun pre x h => by simp at h
  | cons fi' t =>
    obtain ⟨rfl, hl⟩ := cons_prefix_cons.1 ht
    have hspan : listSpan extra [fi'] = entrySize extra fi' := by simp
    rw [cons_prefix_cons, and_iff_right rfl, ← hspan, prefix_taken_iff hl]
    constructor
    · intro h pre x hx hpre
      cases pre with
      | nil => exact absurd rfl hpre
      | cons y pre =>
        obtain ⟨rfl, hxt⟩ := cons_prefix_cons.1 hx
        exact h pre x hxt
    · exact fun h a x hx => h (fi' :: a) x (cons_prefix_cons.2 ⟨rfl, hx⟩) (cons_ne_nil _ _)

/-- A page is no longer than `bound` exactly when no admitted beginning of the listing is. -/
theorem listSpan_page_le_iff {bound : ℕ} :
    listSpan extra (fi :: l.take (taken extra limit (entrySize extra fi) l)) ≤ bound ↔
      ∀ t, t <+: fi :: l → LetIn extra limit t → listSpan extra t ≤ bound := by
  have hpage : fi :: l.take (taken extra limit (entrySize extra fi) l) <+: fi :: l :=
    cons_prefix_cons.2 ⟨rfl, take_prefix _ _⟩
  constructor
  · intro h t ht ha
    obtain ⟨r, hr⟩ := (prefix_page_iff ht).2 ha
    rw [← hr, listSpan_append] at h
    omega
  · exact fun h => h _ hpage ((prefix_page_iff hpage).1 prefix_rfl)

/-! ### The handler -/

/-- What a QUERY_DIRECTORY is answered with. -/
inductive DirAnswer where
  | noMoreFiles
  | failed (e : OsError)
  | page (buf : Bytes)

namespace DirAnswer

def status : DirAnswer → UInt32
  | .noMoreFiles => statusNoMoreFiles
  | .failed e => osErrToStatus e
  | .page _ => statusSuccess

/-- The body of the answer, which starts `pos` bytes into the reply. -/
def body (pos : ℕ) : DirAnswer → Bytes
  | .page buf => put16 9 ++ put16 (UInt16.ofNat (pos + 8)) ++ put32 (UInt32.ofNat buf.length) ++ buf
  | _ => errorResponse

end DirAnswer

namespace OpenHandle

/-- The request starts the scan anew. -/
def rewind (flags : UInt8) (oh : OpenHandle E) : OpenHandle E :=
  if flags &&& (queryDirRestartScans ||| queryDirReopen) ≠ 0 then
    { oh with enumDone := false, enumCursor := 0, enumEntries := [] }
  else oh

/-- The open holds no listing for the pattern. -/
def Unlisted (pattern : GoString) (oh : OpenHandle E) : Prop :=
  oh.enumEntries = [] ∨ oh.enumPattern ≠ pattern

instance (pattern : GoString) (oh : OpenHandle E) : Decidable (oh.Unlisted pattern) :=
  inferInstanceAs (Decidable (_ ∨ _))

/-- The open with a listing of what `Enumerate` yields. -/
def load (pattern : GoString) (items : List (Except OsError FileInfo)) (oh : OpenHandle E) : OpenHandle E :=
  { oh with enumPattern := pattern, enumEntries := (untilError items).1, enumCursor := 0 }

/-- A page of the listing, and the open past it. -/
def send (req : QueryDirectoryRequest) (oh : OpenHandle E) : DirAnswer × OpenHandle E :=
  if oh.enumEntries.length ≤ oh.enumCursor then (.noMoreFiles, { oh with enumDone := true })
  else
    let page := packEntries (entryLayout req.fileInformationClass) req.outputBufferLength.toNat none []
      (oh.enumEntries.drop oh.enumCursor)
    (.page page.1, { oh with
      enumCursor := oh.enumCursor + page.2
      enumDone := oh.enumDone || decide (oh.enumEntries.length ≤ oh.enumCursor + page.2) })

/-- The answer to a QUERY_DIRECTORY and the open it leaves; `items` is what `Enumerate`
yields for the pattern of the request. -/
def query (req : QueryDirectoryRequest) (items : List (Except OsError FileInfo)) (oh : OpenHandle E) :
    DirAnswer × OpenHandle E :=
  let oh := oh.rewind req.flags
  if oh.enumDone then (.noMoreFiles, oh)
  else if oh.Unlisted (listingPattern req.fileName) then
    match (untilError items).2 with
    | some e => (.failed e, oh.load (listingPattern req.fileName) items)
    | none => (oh.load (listingPattern req.fileName) items).send req
  else oh.send req

section Query

variable {req : QueryDirectoryRequest} {items : List (Except OsError FileInfo)} {oh : OpenHandle E}

theorem query_done (hd : (oh.rewind req.flags).enumDone = true) :
    oh.query req items = (.noMoreFiles, oh.rewind req.flags) := if_pos hd

theorem query_failed (hd : (oh.rewind req.flags).enumDone = false)
    (hu : (oh.rewind req.flags).Unlisted (listingPattern req.fileName)) {e : OsError}
    (he : (untilError items).2 = some e) :
    oh.query req items = (.failed e, (oh.rewind req.flags).load (listingPattern req.fileName) items) := by
  simp only [query, hd, Bool.false_eq_true, if_false, if_pos hu, he]

theorem query_loaded (hd : (oh.rewind req.flags).enumDone = false)
    (hu : (oh.rewind req.flags).Unlisted (listingPattern req.fileName)) (he : (untilError items).2 = none) :
    oh.query req items = ((oh.rewind req.flags).load (listingPattern req.fileName) items).send req := by
  simp only [query, hd, Bool.false_eq_true, if_false, if_pos hu, he]

theorem query_listed (hd : (oh.rewind req.flags).enumDone = false)
    (hu : ¬(oh.rewind req.flags).Unlisted (listingPattern req.fileName)) :
    oh.query req items = (oh.rewind req.flags).send req := by
  simp only [query, hd, Bool.false_eq_true, if_false, if_neg hu]

/-- The query comes to the entries of a listing. -/
structure Lists (req : QueryDirectoryRequest) (items : List (Except OsError FileInfo)) (oh : OpenHandle E) :
    Prop where
  going : (oh.rewind req.flags).enumDone = false
  complete : (oh.rewind req.flags).Unlisted (listingPattern req.fileName) → (untilError items).2 = none

/-- The entries that are left for the query to send. -/
def left (req : QueryDirectoryRequest) (items : List (Except OsError FileInfo)) (oh : OpenHandle E) :
    List FileInfo :=
  if (oh.rewind req.flags).Unlisted (listingPattern req.fileName) then (untilError items).1
  else (oh.rewind req.flags).enumEntries.drop (oh.rewind req.flags).enumCursor

/-- The answer when the entries `l` are left. -/
def pageOf (req : QueryDirectoryRequest) : List FileInfo → DirAnswer
  | [] => .noMoreFiles
  | fi :: l => .page (packEntries (entryLayout req.fileInformationClass) req.outputBufferLength.toNat none []
      (fi :: l)).1

theorem send_fst : (oh.send req).1 = pageOf req (oh.enumEntries.drop oh.enumCursor) := by
  unfold send
  cases hd : oh.enumEntries.drop oh.enumCursor with
  | nil => rw [if_pos (drop_eq_nil_iff.1 hd)]; rfl
  | cons fi l =>
    rw [if_neg fun h => by rw [drop_eq_nil_iff.2 h] at hd; cases hd]
    rfl

/-- **The answer is a page of the entries left.** -/
theorem query_fst (h : oh.Lists req items) : (oh.query req items).1 = pageOf req (oh.left req items) := by
  unfold left
  split_ifs with hu
  · rw [query_loaded h.going hu (h.complete hu), send_fst]
    rfl
  · rw [query_listed h.going hu, send_fst]

/-- A query that does not come to its entries fails. -/
theorem query_status_ne (h : ¬oh.Lists req items) : (oh.query req items).1.status ≠ statusSuccess := by
  cases hd : (oh.rewind req.flags).enumDone with
  | true =>
    rw [query_done hd]
    exact (by decide : statusNoMoreFiles ≠ statusSuccess)
  | false =>
    by_cases hu : (oh.rewind req.flags).Unlisted (listingPattern req.fileName)
    · cases he : (untilError items).2 with
      | none => exact absurd ⟨hd, fun _ => he⟩ h
      | some e =>
        rw [query_failed hd hu he]
        exact osErrToStatus_ne e
    · exact absurd ⟨hd, fun h' => absurd h' hu⟩ h

end Query

end OpenHandle

section Handler

variable {o : Origin} {fid : FileId} {msg : Bytes} {s : St E} {oh : OpenHandle E}

/-- The open is `oh`, and `b` has been appended to the reply of `s`. -/
structure Left (o : Origin) (fid : FileId) (s : St E) (oh : OpenHandle E) (b : Bytes) (s' : St E) : Prop where
  handle : s'.c.open? o.sid o.tid fid = some oh
  out : s'.c.out = s.c.out ++ b

theorem open?_setOpen (oh' : OpenHandle E) (h : s.c.open? o.sid o.tid fid = some oh) :
    (s.c.modifyOpen o.sid o.tid fid fun _ => oh').open? o.sid o.tid fid = some oh' := by
  simp [Conn.open?_modifyOpen, h]

theorem setOpen_left (oh' : OpenHandle E) (h : s.c.open? o.sid o.tid fid = some oh) :
    ∃ s', setOpen o fid oh' s = .ok () s' ∧ Left o fid s oh' [] s' ∧ s'.sh = s.sh :=
  ⟨_, rfl, ⟨open?_setOpen oh' h, (append_nil _).symm⟩, rfl⟩

theorem sendEntries_ok {req : QueryDirectoryRequest} (h : s.c.open? o.sid o.tid req.fileId = some oh) :
    ∃ s', sendEntries o req oh s = .ok (oh.send req).1.status s' ∧
      Left o req.fileId s (oh.send req).2 ((oh.send req).1.body s.c.out.length) s' := by
  unfold sendEntries OpenHandle.send
  split_ifs
  · exact ⟨_, rfl, open?_setOpen _ h, rfl⟩
  · exact ⟨_, rfl, open?_setOpen _ h, rfl⟩

theorem listEntries_load {pattern : GoString} (h : s.c.open? o.sid o.tid fid = some oh)
    (hu : oh.Unlisted pattern) {items : List (Except OsError FileInfo)}
    (hi : (E.enumerate oh.h pattern s.sh.world).1 = items) :
    ∃ s', listEntries o fid pattern oh s = .ok (oh.load pattern items, (untilError items).2) s' ∧
      Left o fid s (oh.load pattern items) [] s' := by
  subst hi
  have hrun : listEntries o fid pattern oh = _ := if_pos hu
  rw [hrun]
  exact ⟨_, rfl, open?_setOpen _ h, (append_nil _).symm⟩

theorem listEntries_keep {pattern : GoString} (hu : ¬oh.Unlisted pattern) :
    listEntries o fid pattern oh s = .ok (oh, none) s := by
  have hrun : listEntries o fid pattern oh = _ := if_neg hu
  rw [hrun]
  rfl

/-- `handleQueryDirectory` after the open was rewound. -/
def queryRewound (o : Origin) (req : QueryDirectoryRequest) (oh : OpenHandle E) : M E UInt32 :=
  if oh.enumDone then errBody statusNoMoreFiles
  else do
    let (oh, err) ← listEntries o req.fileId (listingPattern req.fileName) oh
    match err with
    | some e => errBody (osErrToStatus e)
    | none => sendEntries o req oh

/-- **What `handleQueryDirectory` does on an open.** -/
theorem handleQueryDirectory_ok {req : QueryDirectoryRequest} (hreq : QueryDirectoryRequest.parse msg = .ok req)
    (h : s.c.open? o.sid o.tid req.fileId = some oh) {items : List (Except OsError FileInfo)}
    (hi : (E.enumerate oh.h (listingPattern req.fileName) s.sh.world).1 = items) :
    ∃ s', handleQueryDirectory o msg s = .ok (oh.query req items).1.status s' ∧
      Left o req.fileId s (oh.query req items).2 ((oh.query req items).1.body s.c.out.length) s' := by
  obtain ⟨tr, ht, -⟩ := Conn.open?_eq_some.1 h
  obtain ⟨s1, e1, ⟨h1, ho1⟩, hsh1⟩ := setOpen_left (oh.rewind req.flags) h
  have hh : (oh.rewind req.flags).h = oh.h := by unfold OpenHandle.rewind; split_ifs <;> rfl
  have hrun : handleQueryDirectory o msg s = queryRewound o req (oh.rewind req.flags) s1 := by
    rw [handleQueryDirectory, hreq]
    exact (withOpen_apply _ ht h).trans (Go.bind_ok e1)
  rw [append_nil] at ho1
  rw [hrun, ← ho1, queryRewound]
  cases hd : (oh.rewind req.flags).enumDone with
  | true =>
    rw [OpenHandle.query_done hd]
    exact ⟨_, rfl, h1, by rw [← ho1]; rfl⟩
  | false =>
    by_cases hu : (oh.rewind req.flags).Unlisted (listingPattern req.fileName)
    · have hi1 : (E.enumerate (oh.rewind req.flags).h (listingPattern req.fileName) s1.sh.world).1 = items := by
        rw [hh, hsh1]
        exact hi
      obtain ⟨s2, e2, h2, ho2⟩ := listEntries_load h1 hu hi1
      rw [append_nil] at ho2
      simp only [Bool.false_eq_true, if_false, Go.bind_ok e2]
      cases herr : (untilError items).2 with
      | some e =>
        rw [OpenHandle.query_failed hd hu herr]
        exact ⟨_, rfl, h2, by rw [← ho1, ← ho2]; rfl⟩
      | none =>
        rw [OpenHandle.query_loaded hd hu herr, ← ho2]
        obtain ⟨s3, e3, h3, ho3⟩ := sendEntries_ok h2
        exact ⟨s3, e3, h3, by rw [ho3, ho2, ho1]⟩
    · simp only [Bool.false_eq_true, if_false, Go.bind_ok (listEntries_keep hu)]
      rw [OpenHandle.query_listed hd hu]
      obtain ⟨s3, e3, h3, ho3⟩ := sendEntries_ok h1
      exact ⟨s3, e3, h3, by rw [ho3, ho1]⟩

theorem handleQueryDirectory_success {s' : St E} (h : handleQueryDirectory o msg s = .ok statusSuccess s') :
    ∃ req oh, QueryDirectoryRequest.parse msg = .ok req ∧ s.c.open? o.sid o.tid req.fileId = some oh ∧
      oh.Lists req (E.enumerate oh.h (listingPattern req.fileName) s.sh.world).1 ∧
      oh.left req (E.enumerate oh.h (listingPattern req.fileName) s.sh.world).1 ≠ [] := by
  have hfail : ∀ status, status ≠ statusSuccess →
      handleQueryDirectory o msg s ≠ errBody status s := fun status hne he =>
    hne (Outcome.ok.inj (he.symm.trans h)).1
  cases hreq : QueryDirectoryRequest.parse msg with
  | panic =>
    rw [handleQueryDirectory, hreq] at h
    cases h
  | err e => exact absurd (by rw [handleQueryDirectory, hreq]; rfl) (hfail statusInvalidParameter (by decide))
  | ok req =>
    cases hoh : s.c.open? o.sid o.tid req.fileId with
    | none =>
      rw [handleQueryDirectory, hreq] at h hfail
      rcases withOpen_none _ hoh with hp | hp
      · cases h.symm.trans hp
      · exact absurd hp (hfail _ (by decide))
    | some oh =>
      obtain ⟨s1, hrun, -⟩ := handleQueryDirectory_ok hreq hoh rfl
      have hst := (Outcome.ok.inj (hrun.symm.trans h)).1
      have hlists := not_imp_not.1 OpenHandle.query_status_ne hst
      refine ⟨req, oh, rfl, hoh, hlists, fun hnil => ?_⟩
      rw [OpenHandle.query_fst hlists, hnil] at hst
      exact absurd hst (by decide : statusNoMoreFiles ≠ statusSuccess)

end Handler

end Server
end SmbServer
