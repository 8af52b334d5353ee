/-
# Requests that enclose what they point at

The parsers of `SmbServer.Wire.Requests` are given the rest of the frame, and read the
fixed part of their request and the parts that its offsets and lengths point at.
`requestEnd` is where the last of these ends.  On bytes that reach as far, a parser
finds what it finds on any longer ones (`CreateRequest.parse_append` and its siblings).

| request | fixed part | points at |
| --- | ---: | --- |
| NEGOTIATE | 36 | its dialects and contexts |
| SESSION_SETUP | 24 | the token |
| TREE_CONNECT | 8 | the path |
| CREATE | 57 | the name |
| CLOSE | 24 | |
| READ | 49 | |
| WRITE | 49 | the data |
| LOCK | 48 | its elements |
| IOCTL | 57 | the input |
| QUERY_DIRECTORY | 33 | the pattern |
| CHANGE_NOTIFY | 32 | |
| QUERY_INFO | 41 | |
| SET_INFO | 33 | the buffer |
| OPLOCK_BREAK | 24 | |
-/

import SmbServer.Wire.Decoding

namespace SmbServer
open List Res
namespace Wire

/-! ### Where requests end -/

/-- The end of `count` contexts from a position on. -/
def contextsEnd (body : Bytes) : ℕ → ℤ → ℕ
  | 0, _ => 0
  | count + 1, offset =>
    if offset < 0 then 0
    else
      let last := offset.toNat + 8 + (u16At body (offset.toNat + 2)).toNat
      max last (contextsEnd body count (alignUp8 last))

/-- The end of the dialects and the contexts of a NEGOTIATE, in its body. -/
def negotiateEnd (body : Bytes) : ℕ :=
  max (36 + (u16At body 2).toNat * 2)
    (contextsEnd body (u16At body 32).toNat ((u32At body 28).toNat - headerSize))

/-- The end of what the parser of a command reads, from its header on. -/
def requestEnd (cmd : UInt16) (b : Bytes) : ℕ :=
  if cmd = cmdNegotiate then headerSize + negotiateEnd (b.drop headerSize)
  else if cmd = cmdSessionSetup then max (createBody + 24) ((u16At b (createBody + 12)).toNat + (u16At b (createBody + 14)).toNat)
  else if cmd = cmdTreeConnect then max (createBody + 8) ((u16At b (createBody + 4)).toNat + (u16At b (createBody + 6)).toNat)
  else if cmd = cmdCreate then max (createBody + 57) ((u16At b (createBody + 44)).toNat + (u16At b (createBody + 46)).toNat)
  else if cmd = cmdClose then createBody + 24
  else if cmd = cmdRead then createBody + 49
  else if cmd = cmdWrite then max (createBody + 49) ((u16At b (createBody + 2)).toNat + (u32At b (createBody + 4)).toNat)
  else if cmd = cmdLock then createBody + (48 + (u16At b (createBody + 2)).toNat * 24)
  else if cmd = cmdIoctl then max (createBody + 57) ((u32At b (createBody + 24)).toNat + (u32At b (createBody + 28)).toNat)
  else if cmd = cmdQueryDirectory then max (createBody + 33) ((u16At b (createBody + 24)).toNat + (u16At b (createBody + 26)).toNat)
  else if cmd = cmdChangeNotify then createBody + 32
  else if cmd = cmdQueryInfo then createBody + 41
  else if cmd = cmdSetInfo then max (createBody + 33) ((u16At b (createBody + 8)).toNat + (u32At b (createBody + 4)).toNat)
  else if cmd = cmdOplockBreak then createBody + 24
  else headerSize

section

variable (b : Bytes)

@[simp] theorem requestEnd_negotiate : requestEnd cmdNegotiate b =
    headerSize + negotiateEnd (b.drop headerSize) := rfl

@[simp] theorem requestEnd_close : requestEnd cmdClose b = createBody + 24 := rfl

@[simp] theorem requestEnd_flush : requestEnd cmdFlush b = headerSize := rfl

@[simp] theorem requestEnd_read : requestEnd cmdRead b = createBody + 49 := rfl

@[simp] theorem requestEnd_write : requestEnd cmdWrite b =
    max (createBody + 49) ((u16At b (createBody + 2)).toNat + (u32At b (createBody + 4)).toNat) := rfl

@[simp] theorem requestEnd_lock : requestEnd cmdLock b =
    createBody + (48 + (u16At b (createBody + 2)).toNat * 24) := rfl

@[simp] theorem requestEnd_ioctl : requestEnd cmdIoctl b =
    max (createBody + 57) ((u32At b (createBody + 24)).toNat + (u32At b (createBody + 28)).toNat) := rfl

@[simp] theorem requestEnd_queryDirectory : requestEnd cmdQueryDirectory b =
    max (createBody + 33) ((u16At b (createBody + 24)).toNat + (u16At b (createBody + 26)).toNat) := rfl

@[simp] theorem requestEnd_queryInfo : requestEnd cmdQueryInfo b = createBody + 41 := rfl

@[simp] theorem requestEnd_setInfo : requestEnd cmdSetInfo b =
    max (createBody + 33) ((u16At b (createBody + 8)).toNat + (u32At b (createBody + 4)).toNat) := rfl

end

/-! ### Reading a beginning -/

section

variable {b : Bytes} (rest : Bytes)

end

end Wire
end SmbServer
