import Mathlib.Data.List.Basic

/-!
# Programs on a socket

A program reads from the bytes that have arrived and appends to the bytes it sends;
it returns a value or an error, and what it has read and sent stays so either way.

* `Runs m c a c'`: the program `m` goes from `c` to `c'` and returns `a`;
* one rule for each way to build a program: `Runs.pure`, `Runs.bind`, `runs_writeAll`,
  `runs_readExact`, and for each way to fail: `fails_fail`, `fails_readExact`, `Fails.bind`,
  `Runs.bind_fails`;
* `Quiet m`: the program only reads, with the same rules.
-/

namespace Parseh.Lib

/-- The bytes that have arrived and the bytes sent. -/
structure Conn where
  inbox : List UInt8
  outbox : List UInt8 := []
  deriving DecidableEq

/-- A `[u8; n]`. -/
abbrev Buf (n : Nat) := { b : List UInt8 // b.length = n }

def Buf.get {n : Nat} (b : Buf n) (i : Fin n) : UInt8 := b.1.get (i.cast b.2.symm)

def Socket (ε α : Type) := Conn → Except ε α × Conn

namespace Socket

variable {ε α β : Type}

instance : Monad (Socket ε) where
  pure a := fun c => (.ok a, c)
  bind m f := fun c =>
    match m c with
    | (.ok a, c') => f a c'
    | (.error e, c') => (.error e, c')

def fail (e : ε) : Socket ε α := fun c => (.error e, c)

def writeAll (bytes : List UInt8) : Socket ε Unit :=
  fun c => (.ok (), { c with outbox := c.outbox ++ bytes })

/-- Read `n` bytes; where fewer arrive they are gone, and the error is `eof`. -/
def readExact (eof : ε) (n : Nat) : Socket ε (Buf n) := fun c =>
  if h : n ≤ c.inbox.length then
    (.ok ⟨c.inbox.take n, List.length_take_of_le h⟩, { c with inbox := c.inbox.drop n })
  else (.error eof, { c with inbox := [] })

/-- The program returns `a` and leaves the socket as `c'`. -/
def Runs (m : Socket ε α) (c : Conn) (a : α) (c' : Conn) : Prop := m c = (.ok a, c')

/-- The program ends with the error `e`. -/
def Fails (m : Socket ε α) (c : Conn) (e : ε) (c' : Conn) : Prop := m c = (.error e, c')

/-- The program sends nothing, however it ends. -/
def Quiet (m : Socket ε α) : Prop := ∀ c, (m c).2.outbox = c.outbox

section

variable {m : Socket ε α} {f : α → Socket ε β} {c c' c'' : Conn} {a : α} {b : β} {e : ε}

theorem Runs.pure (a : α) (c : Conn) : Runs (Pure.pure a : Socket ε α) c a c := rfl

theorem Runs.bind_eq (hm : Runs m c a c') : (m >>= f) c = f a c' := by
  show (match m c with
    | (.ok a, c') => f a c'
    | (.error e, c') => (.error e, c')) = _
  rw [hm]

theorem Runs.bind (hm : Runs m c a c') (hf : Runs (f a) c' b c'') : Runs (m >>= f) c b c'' :=
  hm.bind_eq.trans hf

theorem Runs.bind_fails (hm : Runs m c a c') (hf : Fails (f a) c' e c'') :
    Fails (m >>= f) c e c'' :=
  hm.bind_eq.trans hf

/-- A program that fails stops where it is. -/
theorem Fails.bind (hm : Fails m c e c') : Fails (m >>= f) c e c' := by
  show (match m c with
    | (.ok a, c') => f a c'
    | (.error e, c') => (.error e, c')) = _
  rw [hm]

theorem fails_fail (e : ε) (c : Conn) : Fails (fail e : Socket ε α) c e c := rfl

theorem runs_writeAll (bytes inbox outbox : List UInt8) :
    Runs (writeAll bytes : Socket ε Unit) ⟨inbox, outbox⟩ () ⟨inbox, outbox ++ bytes⟩ := rfl

/-- What is read is what comes first. -/
theorem runs_readExact (eof : ε) {n : Nat} (bytes rest outbox : List UInt8)
    (h : bytes.length = n) :
    Runs (readExact eof n) ⟨bytes ++ rest, outbox⟩ ⟨bytes, h⟩ ⟨rest, outbox⟩ := by
  subst h
  unfold Runs readExact
  simp

/-- Where too few bytes arrive they are gone. -/
theorem fails_readExact (eof : ε) {n : Nat} (bytes outbox : List UInt8) (h : bytes.length < n) :
    Fails (readExact eof n) ⟨bytes, outbox⟩ eof ⟨[], outbox⟩ := by
  unfold Fails readExact
  rw [dif_neg (by simpa using h)]

theorem quiet_pure (a : α) : Quiet (Pure.pure a : Socket ε α) := fun _ => rfl

theorem quiet_fail (e : ε) : Quiet (fail e : Socket ε α) := fun _ => rfl

theorem quiet_readExact (eof : ε) (n : Nat) : Quiet (readExact eof n) := by
  intro c
  unfold readExact
  split <;> rfl

theorem Quiet.bind (hm : Quiet m) (hf : ∀ a, Quiet (f a)) : Quiet (m >>= f) := by
  intro c
  show (match m c with
    | (.ok a, c') => f a c'
    | (.error e, c') => (.error e, c')).2.outbox = _
  have hc := hm c
  -- a program that fails stops where it is
  rcases hr : m c with ⟨e | a, c'⟩
  · rw [hr] at hc
    exact hc
  · rw [hr] at hc
    exact (hf a c').trans hc

end

end Socket

end Parseh.Lib
