/-
# Computations that may panic

A Go handler works on a mutable state and can stop at any point with a run-time
panic.  The panic is recovered by the caller, so the state it leaves behind
matters: `Go σ α` is a state computation whose two ends, a value or a panic,
both keep the state reached.

`Go.Moves R P m Q` is the one judgement used about such programs: from every
state with `P`, the computation `m` only moves along the relation `R`, however
it ends, and a normal end satisfies `Q`.  For a reflexive and transitive `R`
the judgement composes along the program text, so what a program can do to its
state is said once, as `R`, and proved by following its statements.

`Res ε α` is the pure counterpart for the decoders: a value, an `error`, or a
panic on a slice that is out of range.
-/

import SmbServer.Lib.Bytes
import Mathlib.Logic.Relation

namespace SmbServer

/-- How a computation ends.  Either way it keeps the state it had reached. -/
inductive Outcome (σ α : Type) where
  | ok (a : α) (s : σ)
  | panic (s : σ)

/-- The state a computation leaves behind. -/
def Outcome.state {σ α : Type} : Outcome σ α → σ
  | .ok _ s => s
  | .panic s => s

/-- The same end with another state. -/
def Outcome.map {σ τ α : Type} (f : σ → τ) : Outcome σ α → Outcome τ α
  | .ok a s => .ok a (f s)
  | .panic s => .panic (f s)

/-- A computation on a state `σ` that returns an `α` or panics. -/
def Go (σ α : Type) : Type := σ → Outcome σ α

namespace Go

variable {σ α β : Type}
variable {m : Go σ α} {s' : σ} {b : Bytes} {g : α → Go σ β} {x : Outcome σ α} {o : ℕ}

instance : Monad (Go σ) where
  pure a := fun s => .ok a s
  bind m f := fun s =>
    match m s with
    | .ok a s' => f a s'
    | .panic s' => .panic s'

/-- The current state. -/
def get : Go σ σ := fun s => .ok s s

/-- Apply `f` to the state. -/
def modify (f : σ → σ) : Go σ Unit := fun s => .ok () (f s)

/-- A run-time panic. -/
def fault : Go σ α := fun s => .panic s

/-- `for _, x := range xs { body(x) }`. -/
def forEach (body : β → Go σ Unit) : List β → Go σ Unit
  | [] => pure ()
  | x :: xs => do
      body x
      forEach body xs

@[simp] theorem pure_apply (a : α) (s : σ) : (pure a : Go σ α) s = .ok a s := rfl

@[simp] theorem get_apply (s : σ) : (get : Go σ σ) s = .ok s s := rfl

@[simp] theorem modify_apply (f : σ → σ) (s : σ) : modify f s = .ok () (f s) := rfl

theorem bind_apply (m : Go σ α) (f : α → Go σ β) (s : σ) :
    (m >>= f) s = match m s with
      | .ok a s' => f a s'
      | .panic s' => .panic s' := rfl

theorem bind_ok {f : α → Go σ β} {s : σ} {a : α} (h : m s = .ok a s') :
    (m >>= f) s = f a s' := by
  rw [bind_apply, h]

theorem bind_panic {f : α → Go σ β} {s : σ} (h : m s = .panic s') :
    (m >>= f) s = .panic s' := by
  rw [bind_apply, h]

/-- A sequence that returns has a first part that returns. -/
theorem bind_eq_ok {f : α → Go σ β} {s : σ} {b : β} (h : (m >>= f) s = .ok b s') :
    ∃ a s1, m s = .ok a s1 ∧ f a s1 = .ok b s' := by
  rw [bind_apply] at h
  cases hm : m s with
  | ok a s1 => rw [hm] at h; exact ⟨a, s1, rfl, h⟩
  | panic s1 => rw [hm] at h; cases h

theorem id_map_eq (m : Go σ α) : id <$> m = m := by
  funext s
  show (m >>= fun a => pure (id a)) s = m s
  rw [bind_apply]
  cases m s <;> rfl

theorem bind_bind {γ : Type} (m : Go σ α) (f : α → Go σ β) (g : β → Go σ γ) :
    m >>= f >>= g = m >>= fun a => f a >>= g := by
  funext s
  simp only [bind_apply]
  cases m s <;> rfl

instance : LawfulMonad (Go σ) := LawfulMonad.mk' (Go σ) id_map_eq (fun _ _ => rfl) bind_bind

/-- From a state with `P`, `m` only moves by `r`-steps, and it returns with `Q`. -/
def Moves (r : σ → σ → Prop) (P : σ → Prop) (m : Go σ α) (Q : α → σ → Prop) : Prop :=
  ∀ s, P s → Relation.ReflTransGen r s (m s).state ∧ ∀ a s', m s = .ok a s' → Q a s'

section Rules

variable {r : σ → σ → Prop} {P P' : σ → Prop} {Q Q' : α → σ → Prop}

theorem Moves.pure {a : α} (h : ∀ s, P s → Q a s) : Moves r P (Pure.pure a : Go σ α) Q := by
  intro s hs
  refine ⟨.refl, fun b s' hb => ?_⟩
  cases hb
  exact h s hs

theorem Moves.fault : Moves r P (fault : Go σ α) Q :=
  fun _ _ => ⟨.refl, nofun⟩

theorem Moves.bind {f : α → Go σ β} {T : β → σ → Prop}
    (hm : Moves r P m Q) (hf : ∀ a, Moves r (Q a) (f a) T) : Moves r P (m >>= f) T := by
  intro s hs
  obtain ⟨hR, hQ⟩ := hm s hs
  rw [bind_apply]
  cases h : m s with
  | ok a s' =>
    rw [h] at hR
    obtain ⟨hR', hT⟩ := hf a s' (hQ a s' h)
    exact ⟨hR.trans hR', hT⟩
  | panic s' =>
    rw [h] at hR
    exact ⟨hR, nofun⟩

theorem Moves.step {g : σ → α} {f : σ → σ} (hm : ∀ s, m s = .ok (g s) (f s))
    (hr : ∀ s, P s → r s (f s)) (hQ : ∀ s, P s → Q (g s) (f s)) : Moves r P m Q := by
  intro s hs
  rw [hm s]
  refine ⟨.single (hr s hs), fun a s' h => ?_⟩
  cases h
  exact hQ s hs

theorem Moves.get {Q : σ → σ → Prop} (h : ∀ s, P s → Q s s) : Moves r P (get : Go σ σ) Q := by
  intro s hs
  refine ⟨.refl, fun a s' ha => ?_⟩
  cases ha
  exact h s hs

theorem Moves.mono (h : Moves r P m Q) (hP : ∀ s, P' s → P s)
    (hQ : ∀ a s, Q a s → Q' a s) : Moves r P' m Q' := by
  intro s hs
  obtain ⟨hR, h⟩ := h s (hP s hs)
  exact ⟨hR, fun a s' ha => hQ a s' (h a s' ha)⟩

end Rules

/-- From `s`, the computation returns. -/
def Returns (m : Go σ α) (s : σ) : Prop := ∃ a s', m s = .ok a s'

section Returns

variable {s : σ}

theorem Returns.pure (a : α) : (Pure.pure a : Go σ α).Returns s := ⟨a, s, rfl⟩

theorem Returns.modify (f : σ → σ) : (Go.modify f).Returns s := ⟨(), f s, rfl⟩

theorem Returns.bind {f : α → Go σ β} (hm : m.Returns s)
    (hf : ∀ a s', m s = .ok a s' → (f a).Returns s') : (m >>= f).Returns s := by
  obtain ⟨a, s', h⟩ := hm
  obtain ⟨b, s'', h'⟩ := hf a s' h
  exact ⟨b, s'', (bind_ok h).trans h'⟩

theorem Returns.get {f : σ → Go σ β} (h : (f s).Returns s) : (Go.get >>= f).Returns s := h

theorem Returns.ite {φ : Prop} [Decidable φ] {m1 m2 : Go σ α} (h1 : φ → m1.Returns s) (h2 : ¬φ → m2.Returns s) :
    (if φ then m1 else m2).Returns s := by
  split_ifs with h
  · exact h1 h
  · exact h2 h

theorem not_returns_fault : ¬(fault : Go σ α).Returns s := by
  rintro ⟨a, s', h⟩
  cases h

end Returns

/-- The computation does the same to `f s` as to `s`, unless it returns an exception
`e` from there. -/
def Commutes (f : σ → σ) (e : α → Prop) (m : Go σ α) : Prop :=
  ∀ s, m (f s) = (m s).map f ∨ ∃ a s', m s = .ok a s' ∧ e a

section Commutes

variable {f : σ → σ} {e : α → Prop}

theorem Commutes.of_eq (h : ∀ s, m (f s) = (m s).map f) : Commutes f e m := fun s => .inl (h s)

theorem Commutes.eq (h : Commutes f (fun _ => False) m) (s : σ) : m (f s) = (m s).map f :=
  (h s).resolve_right fun ⟨_, _, _, h⟩ => h

theorem Commutes.pure (a : α) : Commutes f e (Pure.pure a : Go σ α) := .of_eq fun _ => rfl

theorem Commutes.fault : Commutes f e (Go.fault : Go σ α) := .of_eq fun _ => rfl

theorem Commutes.modify {e : Unit → Prop} {g : σ → σ} (h : ∀ s, g (f s) = f (g s)) :
    Commutes f e (Go.modify g) := .of_eq fun s => by
  rw [modify_apply, modify_apply, h]
  rfl

theorem Commutes.bind {e : β → Prop} (hm : Commutes f (fun _ => False) m)
    (hg : ∀ a, Commutes f e (g a)) : Commutes f e (m >>= g) := by
  intro s
  rw [bind_apply, bind_apply, hm.eq s]
  cases m s with
  | ok a s' => exact hg a s'
  | panic s' => exact .inl rfl

/-- A computation that reads the state, but nothing that `f` changes. -/
theorem Commutes.get {e : β → Prop} {g : σ → Go σ β} (hf : ∀ s, g (f s) = g s)
    (hg : ∀ s, Commutes f e (g s)) : Commutes f e (Go.get >>= g) := by
  intro s
  rw [bind_ok (get_apply s), bind_ok (get_apply (f s)), hf]
  exact hg s s

theorem Commutes.ite {φ : Prop} [Decidable φ] {m1 m2 : Go σ α} (h1 : Commutes f e m1) (h2 : Commutes f e m2) :
    Commutes f e (if φ then m1 else m2) := by
  split_ifs
  · exact h1
  · exact h2

theorem Commutes.forEach {body : β → Go σ Unit} (h : ∀ x, Commutes f (fun _ => False) (body x)) (xs : List β) :
    Commutes f (fun _ => False) (Go.forEach body xs) := by
  induction xs with
  | nil => exact .pure ()
  | cons x xs ih => exact .bind (h x) fun _ => ih

end Commutes

/-- However it ends, `m` leaves `f` of the state as it was. -/
def Keeps {γ : Type} (f : σ → γ) (m : Go σ α) : Prop := ∀ s, f (m s).state = f s

section Keeps

variable {γ : Type} {f : σ → γ}

theorem Keeps.pure (a : α) : Keeps f (Pure.pure a : Go σ α) := fun _ => rfl

theorem Keeps.bind (hm : Keeps f m) (hg : ∀ a, Keeps f (g a)) :
    Keeps f (m >>= g) := by
  intro s
  have h := hm s
  rw [bind_apply]
  cases hms : m s with
  | ok a s' => rw [hms] at h; exact (hg a s').trans h
  | panic s' => rw [hms] at h; exact h

/-- A sequence leaves `f` of a state as it was, if its parts do so where they are run. -/
theorem state_bind {s : σ} (hm : f (m s).state = f s)
    (hg : ∀ a s', m s = .ok a s' → f (g a s').state = f s') : f ((m >>= g) s).state = f s := by
  rw [bind_apply]
  cases hms : m s with
  | ok a s' => rw [hms] at hm; exact (hg a s' hms).trans hm
  | panic s' => rw [hms] at hm; exact hm

theorem Keeps.get {g : σ → Go σ β} (hg : ∀ s, Keeps f (g s)) : Keeps f (Go.get >>= g) :=
  bind (fun _ => rfl) hg

end Keeps

end Go

/-- Two ends are alike: in related states, and with related results or in a panic both. -/
inductive Outcome.Both {σ α β : Type} (P : σ → σ → Prop) (R : α → β → σ → σ → Prop) :
    Outcome σ α → Outcome σ β → Prop where
  | ok {a : α} {b : β} {s t : σ} (hs : P s t) (h : R a b s t) : Both P R (.ok a s) (.ok b t)
  | panic {s t : σ} (hs : P s t) : Both P R (.panic s) (.panic t)

namespace Outcome.Both

variable {σ α β γ δ : Type} {P P' : σ → σ → Prop} {R : α → β → σ → σ → Prop}

theorem bind {m' : Go σ β} {f : α → Go σ γ} {f' : β → Go σ δ} {T : γ → δ → σ → σ → Prop} {s t : σ}
    (h : Both P R (m s) (m' t)) (hf : ∀ a b s t, P s t → R a b s t → Both P T (f a s) (f' b t)) :
    Both P T ((m >>= f) s) ((m' >>= f') t) := by
  rw [Go.bind_apply, Go.bind_apply]
  generalize m s = x at h
  generalize m' t = y at h
  cases h with
  | ok hs h => exact hf _ _ _ _ hs h
  | panic hs => exact .panic hs

theorem mono {R' : α → β → σ → σ → Prop} {y : Outcome σ β} (h : Both P R x y)
    (hR : ∀ a b s t, P s t → R a b s t → R' a b s t) : Both P R' x y := by
  cases h with
  | ok hs h => exact .ok hs (hR _ _ _ _ hs h)
  | panic hs => exact .panic hs

theorem map {R' : α → β → σ → σ → Prop} {y : Outcome σ β} {f g : σ → σ} (h : Both P R x y)
    (hP : ∀ s t, P s t → P' (f s) (g t)) (hR : ∀ a b s t, P s t → R a b s t → R' a b (f s) (g t)) :
    Both P' R' (x.map f) (y.map g) := by
  cases h with
  | ok hs h => exact .ok (hP _ _ hs) (hR _ _ _ _ hs h)
  | panic hs => exact .panic (hP _ _ hs)

end Outcome.Both

/-- What a decoder returns: a value, a Go `error`, or a run-time panic. -/
inductive Res (ε α : Type) where
  | ok (a : α)
  | err (e : ε)
  | panic

namespace Res

variable {ε α β : Type}

instance : Monad (Res ε) where
  pure := .ok
  bind m f :=
    match m with
    | .ok a => f a
    | .err e => .err e
    | .panic => .panic

/-- `return ..., err`. -/
def throw (e : ε) : Res ε α := .err e

/-- `b[o : o+n]`, a panic when it is out of range. -/
def slice (b : Bytes) (o n : ℕ) : Res ε Bytes :=
  if o + n ≤ b.length then .ok (SmbServer.slice b o n) else .panic

/-- `b[o]`, a panic when it is out of range. -/
def u8 (b : Bytes) (o : ℕ) : Res ε UInt8 :=
  if o < b.length then .ok (u8At b o) else .panic

/-- A little-endian word of `b`, a panic when it is out of range. -/
def u16 (b : Bytes) (o : ℕ) : Res ε UInt16 :=
  if o + 2 ≤ b.length then .ok (u16At b o) else .panic

@[inherit_doc u16] def u32 (b : Bytes) (o : ℕ) : Res ε UInt32 :=
  if o + 4 ≤ b.length then .ok (u32At b o) else .panic

@[inherit_doc u16] def u64 (b : Bytes) (o : ℕ) : Res ε UInt64 :=
  if o + 8 ≤ b.length then .ok (u64At b o) else .panic

@[simp] theorem pure_eq (a : α) : (pure a : Res ε α) = .ok a := rfl

@[simp] theorem ok_bind (a : α) (f : α → Res ε β) : (Res.ok a >>= f) = f a := rfl

/-- A decoder that succeeds has a first part that does. -/
theorem bind_eq_ok {x : Res ε α} {f : α → Res ε β} {b : β} (h : (x >>= f) = .ok b) :
    ∃ a, x = .ok a ∧ f a = .ok b := by
  cases x with
  | ok a => exact ⟨a, rfl, h⟩
  | err e => cases h
  | panic => cases h

theorem slice_eq_ok {b' : Bytes} {n : ℕ} (h : (slice b o n : Res ε Bytes) = .ok b') :
    b' = SmbServer.slice b o n ∧ o + n ≤ b.length := by
  unfold slice at h
  split_ifs at h with hle
  exact ⟨(Res.ok.inj h).symm, hle⟩

/-! ### Decoders that do not panic -/

/-- A decoder that returns or refuses. -/
def Safe (x : Res ε α) : Prop := x ≠ .panic

theorem Safe.ok (a : α) : (Res.ok a : Res ε α).Safe := by simp [Safe]

theorem Safe.throw (e : ε) : (Res.throw e : Res ε α).Safe := by simp [Safe, Res.throw]

theorem Safe.bind {x : Res ε α} {f : α → Res ε β} (hx : x.Safe) (hf : ∀ a, x = .ok a → (f a).Safe) :
    (x >>= f).Safe := by
  cases x with
  | ok a => exact hf a rfl
  | err e => exact Safe.throw e
  | panic => exact absurd rfl hx

theorem Safe.slice {n : ℕ} (h : o + n ≤ b.length) : (slice b o n : Res ε Bytes).Safe := by
  rw [Res.slice, if_pos h]
  exact .ok _

theorem u8_bind (h : o < b.length) (f : UInt8 → Res ε β) :
    (u8 b o >>= f) = f (u8At b o) := by
  rw [u8, if_pos h, ok_bind]

theorem u16_bind (h : o + 2 ≤ b.length) (f : UInt16 → Res ε β) :
    (u16 b o >>= f) = f (u16At b o) := by
  rw [u16, if_pos h, ok_bind]

theorem u32_bind (h : o + 4 ≤ b.length) (f : UInt32 → Res ε β) :
    (u32 b o >>= f) = f (u32At b o) := by
  rw [u32, if_pos h, ok_bind]

theorem u64_bind (h : o + 8 ≤ b.length) (f : UInt64 → Res ε β) :
    (u64 b o >>= f) = f (u64At b o) := by
  rw [u64, if_pos h, ok_bind]

end Res

end SmbServer
