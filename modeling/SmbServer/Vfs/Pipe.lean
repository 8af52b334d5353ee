/-
# Named pipes

`pipeHandle` of `smb/vfs/pipe.go`.  A client writes a request to a pipe and reads the reply
of the pipe's handler.  The handle keeps the request until the first `Read` after the reply
before it has been read to its end; only then is the handler called.

`Write` puts a request in the place of one that is still waiting there.  As long as no `Write`
comes that early (`Paced`), what has been read and what is still to be read (`rest`) are
together the replies to all requests, in order (`run_rest`).  A second `Write` before the
first request is taken up drops that request (`overwritten_request`).
-/

import SmbServer.Vfs.Interface

namespace SmbServer
open List
namespace Vfs

/-- `pipeHandle`. -/
structure PipeHandle where
  handler : Bytes → Bytes
  writeBuf : Bytes := []
  hasWrite : Bool := false
  readBuf : Bytes := []
  readPos : ℕ := 0
  closed : Bool := false

namespace PipeHandle

/-- The handle of a pipe that has just been opened. -/
def opened (f : Bytes → Bytes) : PipeHandle := { handler := f }

/-- The reply that is being read; where it has been read to its end, the reply of the handler to
the waiting request, if there is one. -/
def fill (h : PipeHandle) : PipeHandle :=
  if h.readBuf.length ≤ h.readPos ∧ h.hasWrite then
    { h with readBuf := h.handler h.writeBuf, readPos := 0, hasWrite := false, writeBuf := [] }
  else h

/-- `Read` into a buffer of `size` bytes. -/
def read (h : PipeHandle) (size : ℕ) : (Bytes × Option OsError) × PipeHandle :=
  if h.closed then (([], some .eof), h)
  else if h.readBuf.length ≤ h.readPos ∧ h.hasWrite = false then (([], none), h)
  else
    let h := h.fill
    let p := (h.readBuf.drop h.readPos).take size
    ((p, none), { h with readPos := h.readPos + p.length })

/-- `Write`. -/
def write (h : PipeHandle) (p : Bytes) : ℕ × PipeHandle :=
  (p.length, { h with writeBuf := p, hasWrite := true })

/-- `Close`. -/
def close (h : PipeHandle) : PipeHandle :=
  { h with closed := true, hasWrite := false, writeBuf := [], readBuf := [] }

/-- `ProcessPipe`, which goes past the buffers. -/
def processPipe (h : PipeHandle) (input : Bytes) : Bytes := h.handler input

end PipeHandle

/-- A call on a pipe. -/
inductive PipeOp where
  | write (p : Bytes)
  | read (size : ℕ)
  deriving DecidableEq

namespace PipeOp

/-- The request of a call. -/
def request : PipeOp → Option Bytes
  | write p => some p
  | read _ => none

/-- A `Read` into a buffer that is not empty. -/
def nonemptyRead : PipeOp → Bool
  | write _ => false
  | read size => decide (0 < size)

end PipeOp

/-- The replies to the requests of a sequence of calls. -/
def replies (f : Bytes → Bytes) (ops : List PipeOp) : Bytes := (ops.filterMap PipeOp.request).flatMap f

namespace PipeHandle

/-- One call: what it reads, and the handle afterwards. -/
def step (h : PipeHandle) : PipeOp → Bytes × PipeHandle
  | .write p => ([], (h.write p).2)
  | .read size => ((h.read size).1.1, (h.read size).2)

/-- A sequence of calls: all that is read, and the handle afterwards. -/
def run (h : PipeHandle) : List PipeOp → Bytes × PipeHandle
  | [] => ([], h)
  | op :: ops => ((h.step op).1 ++ ((h.step op).2.run ops).1, ((h.step op).2.run ops).2)

/-- No `Write` while a request is waiting. -/
def Paced (h : PipeHandle) : List PipeOp → Prop
  | [] => True
  | op :: ops => (op.request.isSome → h.hasWrite = false) ∧ (h.step op).2.Paced ops

instance decidablePaced : (h : PipeHandle) → (ops : List PipeOp) → Decidable (h.Paced ops)
  | _, [] => .isTrue trivial
  | _, _ :: ops => @instDecidableAnd _ _ _ (decidablePaced _ ops)

/-- What is still to be read: the rest of a reply, and the reply to the waiting request. -/
def rest (h : PipeHandle) : Bytes :=
  h.readBuf.drop h.readPos ++ if h.hasWrite then h.handler h.writeBuf else []

/-! ### One call -/

variable {h : PipeHandle}

theorem fill_rest : h.fill.rest = h.rest := by
  unfold fill
  split_ifs with hfill
  · rw [rest, rest, drop_eq_nil_of_le hfill.1, if_pos hfill.2]
    simp
  · rfl

/-- After `fill` a request waits only behind a reply that is not read to its end. -/
theorem readPos_lt_of_fill (hw : h.fill.hasWrite = true) : h.fill.readPos < h.fill.readBuf.length := by
  unfold fill at hw ⊢
  split_ifs at hw ⊢ with hfill
  exact not_le.1 fun hle => hfill ⟨hle, hw⟩

theorem rest_of_idle (hidle : h.readBuf.length ≤ h.readPos ∧ h.hasWrite = false) : h.rest = [] := by
  rw [rest, drop_eq_nil_of_le hidle.1, hidle.2]
  rfl

/-- What a `Read` returns was still to be read. -/
theorem read_rest (hopen : h.closed = false) (size : ℕ) : (h.read size).1.1 ++ (h.read size).2.rest = h.rest := by
  unfold read
  rw [if_neg (by rw [hopen]; exact Bool.false_ne_true)]
  split_ifs with hidle
  · rfl
  · rw [← fill_rest (h := h)]
    dsimp only
    rw [rest, rest, ← append_assoc]
    congr 1
    rw [← drop_drop, length_take]
    rcases le_total size (h.fill.readBuf.drop h.fill.readPos).length with hle | hle
    · rw [min_eq_left hle, take_append_drop]
    · rw [min_eq_right hle, drop_length, append_nil, take_of_length_le hle]

/-- A `Read` into a buffer returns something, if there is anything to read. -/
theorem read_ne_nil (hopen : h.closed = false) {size : ℕ} (hsize : 0 < size) (hrest : h.rest ≠ []) :
    (h.read size).1.1 ≠ [] := by
  unfold read
  rw [if_neg (by rw [hopen]; exact Bool.false_ne_true), if_neg fun hidle => hrest (rest_of_idle hidle)]
  dsimp only
  intro hnil
  have hdrop : h.fill.readBuf.drop h.fill.readPos = [] :=
    (take_eq_nil_iff.1 hnil).resolve_left (by omega)
  rw [← fill_rest, rest, hdrop, nil_append] at hrest
  have hw : h.fill.hasWrite = true := by
    by_contra hw
    exact hrest (if_neg hw)
  have := readPos_lt_of_fill hw
  have := drop_eq_nil_iff.1 hdrop
  omega

/-- A `Write` that finds no request waiting adds the reply to what is to be read. -/
theorem write_rest (p : Bytes) (hw : h.hasWrite = false) : (h.write p).2.rest = h.rest ++ h.handler p := by
  rw [rest, rest, hw]
  simp [write]

theorem step_closed (op : PipeOp) : (h.step op).2.closed = h.closed ∧ (h.step op).2.handler = h.handler := by
  cases op with
  | write p => exact ⟨rfl, rfl⟩
  | read size =>
    have hfill : h.fill.closed = h.closed ∧ h.fill.handler = h.handler := by
      unfold fill
      split_ifs <;> exact ⟨rfl, rfl⟩
    unfold step read
    dsimp only
    split_ifs
    · exact ⟨rfl, rfl⟩
    · exact ⟨rfl, rfl⟩
    · exact hfill

/-- **One call**: what is read, and what is still to be read, is what was to be read, and the reply
to a request. -/
theorem step_rest {op : PipeOp} (hopen : h.closed = false) (hpaced : op.request.isSome → h.hasWrite = false) :
    (h.step op).1 ++ (h.step op).2.rest = h.rest ++ replies h.handler [op] := by
  cases op with
  | write p =>
    show [] ++ (h.write p).2.rest = _
    rw [write_rest p (hpaced rfl)]
    simp [replies, PipeOp.request]
  | read size =>
    show (h.read size).1.1 ++ (h.read size).2.rest = _
    rw [read_rest hopen]
    simp [replies, PipeOp.request]

/-! ### Sequences of calls -/

theorem replies_cons (f : Bytes → Bytes) (op : PipeOp) (ops : List PipeOp) :
    replies f (op :: ops) = replies f [op] ++ replies f ops := by
  rw [replies, replies, replies, ← flatMap_append, ← filterMap_append]
  rfl

/-- **A sequence of calls.** -/
theorem run_rest {ops : List PipeOp} (hopen : h.closed = false) (hpaced : h.Paced ops) :
    (h.run ops).1 ++ (h.run ops).2.rest = h.rest ++ replies h.handler ops := by
  induction ops generalizing h with
  | nil => simp [run, replies]
  | cons op ops ih =>
    obtain ⟨hclosed, hhandler⟩ := h.step_closed op
    have hstep := step_rest hopen hpaced.1
    have hrun := ih (hclosed.trans hopen) hpaced.2
    rw [hhandler] at hrun
    rw [run, append_assoc, hrun, ← append_assoc, hstep, replies_cons _ _ ops, append_assoc]

theorem run_closed (ops : List PipeOp) : (h.run ops).2.closed = h.closed := by
  induction ops generalizing h with
  | nil => rfl
  | cons op ops ih => exact ih.trans (h.step_closed op).1

theorem run_append (ops ops' : List PipeOp) :
    h.run (ops ++ ops') = ((h.run ops).1 ++ ((h.run ops).2.run ops').1, ((h.run ops).2.run ops').2) := by
  induction ops generalizing h with
  | nil => rfl
  | cons op ops ih => rw [cons_append, run, ih, run, append_assoc]

/-- As many reads as there are bytes to read leave none. -/
theorem run_reads {reads : List PipeOp} (hopen : h.closed = false) (hreads : ∀ op ∈ reads, op.request = none)
    (hcount : h.rest.length ≤ reads.countP PipeOp.nonemptyRead) : (h.run reads).1 = h.rest := by
  induction reads generalizing h with
  | nil => exact (length_eq_zero_iff.1 (Nat.le_zero.1 hcount)).symm
  | cons op reads ih =>
    obtain ⟨size, rfl⟩ : ∃ size, op = .read size := by
      cases op with
      | write p => exact absurd (hreads _ (mem_cons_self ..)) (by simp [PipeOp.request])
      | read size => exact ⟨size, rfl⟩
    have hread := h.read_rest hopen size
    have hlen := congrArg List.length hread
    rw [length_append] at hlen
    have hrun : ((h.read size).2.run reads).1 = (h.read size).2.rest := by
      refine ih ((h.step_closed (.read size)).1.trans hopen) (fun op hop => hreads op (mem_cons_of_mem _ hop)) ?_
      rw [countP_cons] at hcount
      by_cases hsize : 0 < size
      · rw [if_pos (show PipeOp.nonemptyRead (.read size) = true from decide_eq_true hsize)] at hcount
        by_cases hrest : h.rest = []
        · rw [hrest, length_nil] at hlen
          omega
        · have := length_pos_of_ne_nil (h.read_ne_nil hopen hsize hrest)
          omega
      · rw [if_neg (show ¬PipeOp.nonemptyRead (.read size) = true from by simpa [PipeOp.nonemptyRead] using hsize)] at hcount
        omega
    show (h.read size).1.1 ++ ((h.read size).2.run reads).1 = h.rest
    rw [hrun, hread]

end PipeHandle

/-- **Paced exchanges lose nothing.**  What has been read is a beginning of the replies to all requests,
in order, and all of them after as many further reads as they have bytes. -/
theorem pipe_lossless (f : Bytes → Bytes) (ops : List PipeOp) (hpaced : (PipeHandle.opened f).Paced ops) :
    ((PipeHandle.opened f).run ops).1 <+: replies f ops ∧
      ∀ reads : List PipeOp, (∀ op ∈ reads, op.request = none) →
        (replies f ops).length ≤ reads.countP PipeOp.nonemptyRead →
        ((PipeHandle.opened f).run (ops ++ reads)).1 = replies f ops := by
  have hrest : ((PipeHandle.opened f).run ops).1 ++ ((PipeHandle.opened f).run ops).2.rest = replies f ops :=
    PipeHandle.run_rest rfl hpaced
  refine ⟨⟨_, hrest⟩, fun reads hreads hcount => ?_⟩
  rw [PipeHandle.run_append, PipeHandle.run_reads (PipeHandle.run_closed ops) hreads, hrest]
  have hlen := congrArg List.length hrest
  rw [List.length_append] at hlen
  omega

/-- Two requests, the second one written while the reply to the first is half read. -/
theorem pipe_lossless_two :
    ((PipeHandle.opened id).run
      ([.write [1, 2], .read 1, .write [3]] ++ [.read 1, .read 0, .read 5, .read 5])).1 = [1, 2, 3] :=
  (pipe_lossless id [.write [1, 2], .read 1, .write [3]] (by decide)).2 [.read 1, .read 0, .read 5, .read 5]
    (by decide) (by decide)

/-- Of two requests written one after the other, the first gets no reply. -/
theorem overwritten_request : ¬∀ (f : Bytes → Bytes) (ops : List PipeOp),
    ((PipeHandle.opened f).run ops).1 <+: replies f ops := by
  intro h
  exact absurd (h id [.write [1], .write [2], .read 5]) (by decide)

end Vfs
end SmbServer
