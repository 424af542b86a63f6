import Mathlib.Logic.Function.Basic
import Parseh.Lib.Run
import Parseh.Wire.Basic

/-!
# The identity file (`parseh-miner`, `identity_store.rs`; `parseh-cli`, `identity.rs`)

The miner and the command line keep one identity in one file of 32 bytes, and either
makes it when it is not there.  Any number of processes may run `load_or_generate` at
the same time, and any of them may be killed between two system calls.

The file is made with `create_new`, which one process at most gets through, and grows
to its 32 bytes by the writes of that process.  `Owned` is the invariant of this;
`identity_agreement` draws from it that all processes that come out with an identity
have the same one, that it then stays, and that a file its maker has left short lets
none come out ever after.
-/

namespace Parseh.Miner

open Parseh.Lib Parseh.Wire

namespace IdentityStore

/-- Why `load_or_generate` fails. -/
inductive IdentityError
  /-- A system call fails. -/
  | io
  /-- The file has this many bytes instead of 32. -/
  | length (n : Nat)
  deriving DecidableEq

/-- Where a process is in `load_or_generate`. -/
inductive Pc
  | start
  /-- `path.exists()` was true; the file is read next. -/
  | present
  /-- `path.exists()` was false; the secret is drawn, the file is created next. -/
  | absent (secret : Array32)
  /-- In `write_all`, with so many bytes written. -/
  | writing (secret : Array32) (written : Nat)
  /-- Returned, with `was_created`. -/
  | loaded (secret : Array32) (wasCreated : Bool)
  | failed (e : IdentityError)
  | killed
  deriving DecidableEq

variable {P : Type} [DecidableEq P]

/-- The file, if there is one, and every process. -/
structure World (P : Type) where
  file : Option Bytes
  pc : P → Pc

def World.goto (w : World P) (p : P) (pc : Pc) : World P :=
  { w with pc := Function.update w.pc p pc }

/-- A system call of a process, or its end. -/
inductive Action (P : Type)
  /-- `path.exists()`; the secret is what `fill_bytes` draws if it is needed. -/
  | checkExists (p : P) (secret : Array32)
  | read (p : P)
  /-- `create_new(true)` and `open`. -/
  | create (p : P)
  /-- One write of `write_all`, of at most `count` bytes. -/
  | write (p : P) (count : Nat)
  /-- `write_all` and `flush` return. -/
  | finish (p : P)
  /-- The next system call fails. -/
  | fault (p : P)
  | kill (p : P)

/-- What the bytes of the file are taken for. -/
def ofBytes (bytes : Bytes) : Pc :=
  if h : bytes.length = 32 then .loaded ⟨bytes, h⟩ false else .failed (.length bytes.length)

/-- One call of one process. -/
def step (w : World P) : Action P → World P
  | .checkExists p secret =>
    match w.pc p with
    | .start => w.goto p (if w.file.isSome then .present else .absent secret)
    | _ => w
  | .read p =>
    match w.pc p, w.file with
    | .present, some bytes => w.goto p (ofBytes bytes)
    | .present, none => w.goto p (.failed .io)
    | _, _ => w
  | .create p =>
    match w.pc p, w.file with
    | .absent secret, none => { w.goto p (.writing secret 0) with file := some [] }
    | .absent _, some _ => w.goto p (.failed .io)
    | _, _ => w
  | .write p count =>
    match w.pc p, w.file with
    | .writing secret n, some bytes =>
      let chunk := (secret.bytes.drop n).take count
      { w.goto p (.writing secret (n + chunk.length)) with file := some (bytes ++ chunk) }
    | _, _ => w
  | .finish p =>
    match w.pc p with
    | .writing secret n => if n = 32 then w.goto p (.loaded secret true) else w
    | _ => w
  | .fault p =>
    match w.pc p with
    | .loaded .. | .failed _ | .killed => w
    | _ => w.goto p (.failed .io)
  | .kill p =>
    match w.pc p with
    | .loaded .. | .failed _ => w
    | _ => w.goto p .killed

/-! ## What a call can change -/

/-- Neither a writer nor a process that has come out. -/
def Pc.idle : Pc → Bool
  | .writing .. | .loaded .. => false
  | _ => true

/-- Everything a call can do. -/
inductive Change (w : World P) : World P → Prop
  | none : Change w w
  | idle (p : P) {pc : Pc} (hpc : pc.idle = true) (hout : ∀ s c, w.pc p ≠ .loaded s c) :
      Change w (w.goto p pc)
  | read (p : P) {secret : Array32} (hpc : (w.pc p).idle = true)
      (hfile : w.file = some secret.bytes) : Change w (w.goto p (.loaded secret false))
  | create (p : P) (secret : Array32) (hpc : (w.pc p).idle = true) (hfile : w.file = none) :
      Change w { w.goto p (.writing secret 0) with file := some [] }
  | write (p : P) {secret : Array32} {n : Nat} {bytes : Bytes} (count : Nat)
      (hpc : w.pc p = .writing secret n) (hfile : w.file = some bytes) :
      Change w { w.goto p (.writing secret (n + ((secret.bytes.drop n).take count).length)) with
        file := some (bytes ++ (secret.bytes.drop n).take count) }
  | finish (p : P) {secret : Array32} (hpc : w.pc p = .writing secret 32) :
      Change w (w.goto p (.loaded secret true))

theorem step_change (w : World P) (a : Action P) : Change w (step w a) := by
  cases a with
  | checkExists p secret =>
    dsimp only [step]
    split
    · next hpc =>
      refine .idle p ?_ (by simp [hpc])
      split <;> rfl
    · exact .none
  | read p =>
    dsimp only [step]
    split
    · next bytes hpc hfile =>
      unfold ofBytes
      split
      · next hlen => exact .read p (by rw [hpc]; rfl) hfile
      · exact .idle p rfl (by simp [hpc])
    · next hpc _ => exact .idle p rfl (by simp [hpc])
    · exact .none
  | create p =>
    dsimp only [step]
    split
    · next secret hpc hfile => exact .create p secret (by rw [hpc]; rfl) hfile
    · next hpc _ => exact .idle p rfl (by simp [hpc])
    · exact .none
  | write p count =>
    dsimp only [step]
    split
    · next secret n bytes hpc hfile => exact .write p count hpc hfile
    · exact .none
  | finish p =>
    dsimp only [step]
    split
    · next secret n hpc =>
      split
      · next hn => exact .finish p (hn ▸ hpc)
      · exact .none
    · exact .none
  | fault p =>
    dsimp only [step]
    split
    · exact .none
    · exact .none
    · exact .none
    · next hloaded _ _ => exact .idle p rfl fun s c h => hloaded s c h
  | kill p =>
    dsimp only [step]
    split
    · exact .none
    · exact .none
    · next hloaded _ => exact .idle p rfl fun s c h => hloaded s c h

/-! ## One maker -/

/-- The process is making the file, or has made it. -/
def Pc.owns : Pc → Bool
  | .writing .. => true
  | .loaded _ wasCreated => wasCreated
  | _ => false

/-- What holds in every run that starts with the file `before`. -/
structure Owned (before : Option Bytes) (w : World P) : Prop where
  missing : w.file = none → before = none ∧ ∀ p, (w.pc p).idle = true
  writing : ∀ p s n, w.pc p = .writing s n → n ≤ 32 ∧ w.file = some (s.bytes.take n)
  loaded : ∀ p s c, w.pc p = .loaded s c → w.file = some s.bytes
  made : ∀ p, (w.pc p).owns = true → before = none
  unique : ∀ p q, (w.pc p).owns = true → (w.pc q).owns = true → p = q

theorem pc_goto (w : World P) (p q : P) (pc : Pc) :
    (w.goto p pc).pc q = if q = p then pc else w.pc q := Function.update_apply ..

theorem not_owns_of_idle {pc : Pc} (h : pc.idle = true) : pc.owns = false := by
  cases pc with
  | writing s n => cases h
  | loaded s c => cases h
  | start => rfl
  | present => rfl
  | absent s => rfl
  | failed e => rfl
  | killed => rfl

section Change

variable {before : Option Bytes} {w : World P}

theorem Owned.idle (h : Owned before w) (p : P) {pc : Pc} (hpc : pc.idle = true) :
    Owned before (w.goto p pc) := by
  -- a process whose place says something is not the one that moved
  have hne : ∀ {q : P} {pc' : Pc}, pc'.idle = false → (w.goto p pc).pc q = pc' → w.pc q = pc' := by
    intro q pc' hidle hq
    rw [pc_goto] at hq
    split at hq
    · rw [hq, hidle] at hpc
      cases hpc
    · exact hq
  have howns : ∀ {q : P}, ((w.goto p pc).pc q).owns = true → (w.pc q).owns = true := by
    intro q hq
    rw [pc_goto] at hq
    split at hq
    · rw [not_owns_of_idle hpc] at hq
      cases hq
    · exact hq
  refine ⟨fun hfile => ?_, fun q s n hq => h.writing q s n (hne rfl hq),
    fun q s c hq => h.loaded q s c (hne rfl hq), fun q hq => h.made q (howns hq),
    fun q r hq hr => h.unique q r (howns hq) (howns hr)⟩
  refine ⟨(h.missing hfile).1, fun q => ?_⟩
  rw [pc_goto]
  split
  · exact hpc
  · exact (h.missing hfile).2 q

theorem Owned.read (h : Owned before w) (p : P) {secret : Array32}
    (hfile : w.file = some secret.bytes) : Owned before (w.goto p (.loaded secret false)) := by
  refine ⟨fun hnone => ?_, fun q s n hq => ?_, fun q s c hq => ?_, fun q hq => ?_,
    fun q r hq hr => ?_⟩
  · rw [show (w.goto p (.loaded secret false)).file = w.file from rfl, hfile] at hnone
    cases hnone
  · rw [pc_goto] at hq
    split at hq
    · cases hq
    · exact h.writing q s n hq
  · rw [pc_goto] at hq
    split at hq
    · cases hq
      exact hfile
    · exact h.loaded q s c hq
  · rw [pc_goto] at hq
    split at hq
    · cases hq
    · exact h.made q hq
  · rw [pc_goto] at hq hr
    split at hq
    · cases hq
    · split at hr
      · cases hr
      · exact h.unique q r hq hr

theorem Owned.create (h : Owned before w) (p : P) (secret : Array32)
    (hfile : w.file = none) :
    Owned before { w.goto p (.writing secret 0) with file := some [] } := by
  -- without a file no process is past its creation
  obtain ⟨hbefore, hall⟩ := h.missing hfile
  have hcases : ∀ q, (w.goto p (.writing secret 0)).pc q = .writing secret 0 ∧ q = p ∨
      ((w.goto p (.writing secret 0)).pc q).idle = true := by
    intro q
    rw [pc_goto]
    split
    · next hq => exact Or.inl ⟨rfl, hq⟩
    · exact Or.inr (hall q)
  refine ⟨(fun hnone => by cases hnone), fun q s n hq => ?_, fun q s c hq => ?_,
    fun q _ => hbefore, fun q r hq hr => ?_⟩
  · rcases hcases q with ⟨hpc, -⟩ | hidle
    · cases hpc.symm.trans hq
      exact ⟨by decide, rfl⟩
    · rw [show (w.goto p (.writing secret 0)).pc q = .writing s n from hq] at hidle
      cases hidle
  · rcases hcases q with ⟨hpc, -⟩ | hidle
    · cases hpc.symm.trans hq
    · rw [show (w.goto p (.writing secret 0)).pc q = .loaded s c from hq] at hidle
      cases hidle
  · have howner : ∀ q, ((w.goto p (.writing secret 0)).pc q).owns = true → q = p := by
      intro q hq
      rcases hcases q with ⟨-, hqp⟩ | hidle
      · exact hqp
      · rw [not_owns_of_idle hidle] at hq
        cases hq
    rw [howner q hq, howner r hr]

/-- Where some process has come out, its maker has nothing left to write. -/
theorem drop_eq_nil_of_length {s : Array32} {n : Nat} {b : Bytes} (hb : b.length = 32)
    (hfile : b = s.bytes.take n) : s.bytes.drop n = [] := by
  have hlen := congrArg List.length hfile
  rw [List.length_take, s.size, hb] at hlen
  apply List.drop_eq_nil_of_le
  rw [s.size]
  omega

theorem Owned.write (h : Owned before w) (p : P) {secret : Array32} {n : Nat} {bytes : Bytes}
    (count : Nat) (hpc : w.pc p = .writing secret n) (hfile : w.file = some bytes) :
    Owned before { w.goto p (.writing secret (n + ((secret.bytes.drop n).take count).length)) with
      file := some (bytes ++ (secret.bytes.drop n).take count) } := by
  obtain ⟨hn, hpart⟩ := h.writing p secret n hpc
  obtain rfl := Option.some.inj (hfile.symm.trans hpart)
  have howner : (w.pc p).owns = true := by rw [hpc]; rfl
  have hlen : ((secret.bytes.drop n).take count).length = min count (32 - n) := by
    rw [List.length_take, List.length_drop, secret.size]
  have hgrown : secret.bytes.take n ++ (secret.bytes.drop n).take count =
      secret.bytes.take (n + ((secret.bytes.drop n).take count).length) := by
    rw [List.take_add, hlen]
    congr 1
    by_cases hc : count ≤ 32 - n
    · rw [Nat.min_eq_left hc]
    · rw [Nat.min_eq_right (by omega), List.take_of_length_le, List.take_of_length_le]
      · rw [List.length_drop, secret.size]
      · rw [List.length_drop, secret.size]
        omega
  have hsame : ∀ {q pc'}, (w.goto p (.writing secret
      (n + ((secret.bytes.drop n).take count).length))).pc q = pc' → pc'.owns = true →
      (w.pc q).owns = true := by
    intro q pc' hq ho
    rw [pc_goto] at hq
    split at hq
    · next heq =>
      rw [heq]
      exact howner
    · rw [hq]
      exact ho
  refine ⟨(fun hnone => by cases hnone), fun q s m hq => ?_, fun q s c hq => ?_,
    fun q hq => h.made q (hsame rfl hq), fun q r hq hr => h.unique q r (hsame rfl hq) (hsame rfl hr)⟩
  · have hqp : q = p := h.unique q p (hsame hq rfl) howner
    subst hqp
    have hq' := (pc_goto w q q _).symm.trans hq
    rw [if_pos rfl] at hq'
    cases hq'
    refine ⟨?_, congrArg some hgrown⟩
    rw [hlen]
    omega
  · have hq' := (pc_goto w p q _).symm.trans hq
    split at hq'
    · cases hq'
    · have hloaded := h.loaded q s c hq'
      rw [hpart] at hloaded
      have hnil := drop_eq_nil_of_length s.size (Option.some.inj hloaded).symm
      rw [hnil, List.take_nil, List.append_nil]
      exact hloaded

theorem Owned.finish (h : Owned before w) (p : P) {secret : Array32}
    (hpc : w.pc p = .writing secret 32) : Owned before (w.goto p (.loaded secret true)) := by
  obtain ⟨-, hfile⟩ := h.writing p secret 32 hpc
  rw [List.take_of_length_le (Nat.le_of_eq secret.size)] at hfile
  have howner : (w.pc p).owns = true := by rw [hpc]; rfl
  have hsame : ∀ {q}, ((w.goto p (.loaded secret true)).pc q).owns = true →
      (w.pc q).owns = true := by
    intro q hq
    rw [pc_goto] at hq
    split at hq
    · next heq =>
      rw [heq]
      exact howner
    · exact hq
  refine ⟨fun hnone => ?_, fun q s n hq => ?_, fun q s c hq => ?_,
    fun q hq => h.made q (hsame hq), fun q r hq hr => h.unique q r (hsame hq) (hsame hr)⟩
  · rw [show (w.goto p (.loaded secret true)).file = w.file from rfl, hfile] at hnone
    cases hnone
  · rw [pc_goto] at hq
    split at hq
    · cases hq
    · exact h.writing q s n hq
  · rw [pc_goto] at hq
    split at hq
    · cases hq
      exact hfile
    · exact h.loaded q s c hq

/-- Every call keeps the invariant. -/
theorem Owned.step (h : Owned before w) (a : Action P) : Owned before (step w a) := by
  have hchange := step_change w a
  generalize IdentityStore.step w a = w' at hchange
  cases hchange with
  | none => exact h
  | idle p hpc _ => exact h.idle p hpc
  | read p _ hfile => exact h.read p hfile
  | create p secret _ hfile => exact h.create p secret hfile
  | write p count hpc hfile => exact h.write p count hpc hfile
  | finish p hpc => exact h.finish p hpc

/-! ## Settled files -/

/-- The file holds these bytes, and they are 32 or nobody writes. -/
def Settled (b : Bytes) (w : World P) : Prop :=
  w.file = some b ∧ (b.length = 32 ∨ ∀ p s n, w.pc p ≠ .writing s n)

theorem settled_goto {b : Bytes} (h : Settled b w) (p : P) {pc : Pc}
    (hpc : ∀ s n, pc ≠ .writing s n) : Settled b (w.goto p pc) := by
  refine ⟨h.1, h.2.imp_right fun hnone q s n hq => ?_⟩
  rw [pc_goto] at hq
  split at hq
  · exact hpc s n hq
  · exact hnone q s n hq

/-- A settled file stays as it is. -/
theorem Settled.step {b : Bytes} (hs : Settled b w) (h : Owned before w) (a : Action P) :
    Settled b (step w a) := by
  have hchange := step_change w a
  generalize IdentityStore.step w a = w' at hchange
  cases hchange with
  | none => exact hs
  | idle p hpc _ =>
    refine settled_goto hs p fun s n heq => ?_
    rw [heq] at hpc
    cases hpc
  | read p _ _ => exact settled_goto hs p (by simp)
  | create p secret _ hfile =>
    rw [hs.1] at hfile
    cases hfile
  | @write p secret n bytes count hpc hfile =>
    have hlen : b.length = 32 := hs.2.resolve_right fun hnone => hnone p secret n hpc
    obtain rfl := Option.some.inj (hs.1.symm.trans hfile)
    have hpart := Option.some.inj (hs.1.symm.trans (h.writing p secret n hpc).2)
    have hnil := drop_eq_nil_of_length hlen hpart
    refine ⟨?_, Or.inl hlen⟩
    show some (b ++ (secret.bytes.drop n).take count) = some b
    rw [hnil, List.take_nil, List.append_nil]
  | finish p hpc => exact settled_goto hs p (by simp)

theorem Settled.run {b : Bytes} (hs : Settled b w) (h : Owned before w) (as : List (Action P)) :
    Settled b (run IdentityStore.step w as) := by
  have hboth : Owned before (Lib.run IdentityStore.step w as) ∧
      Settled b (Lib.run IdentityStore.step w as) :=
    run_invariant (I := fun w => Owned before w ∧ Settled b w)
      (fun _ a hw => ⟨hw.1.step a, hw.2.step hw.1 a⟩) ⟨h, hs⟩ as
  exact hboth.2

end Change

/-! ## Agreement -/

/-- What holds after the calls `as` of processes that all begin in `w`. -/
structure IdentityAgreement (w : World P) (as : List (Action P)) : Prop where
  same : ∀ p q s t c d, (run step w as).pc p = .loaded s c → (run step w as).pc q = .loaded t d →
    s = t
  oneMaker : ∀ p q s t, (run step w as).pc p = .loaded s true →
    (run step w as).pc q = .loaded t true → p = q
  kept : ∀ p s c, (run step w as).pc p = .loaded s c →
    ∀ later, (run step w (as ++ later)).file = some s.bytes
  existing : ∀ b, w.file = some b → (run step w as).file = some b ∧
    ∀ p s c, (run step w as).pc p = .loaded s c → s.bytes = b ∧ c = false
  short : ∀ b, (run step w as).file = some b → b.length ≠ 32 →
    (∀ p s n, (run step w as).pc p ≠ .writing s n) →
    ∀ later p s c, (run step w (as ++ later)).pc p ≠ .loaded s c

omit [DecidableEq P] in
theorem owned_start {w : World P} (hstart : ∀ p, w.pc p = .start) : Owned w.file w := by
  refine ⟨fun hfile => ⟨hfile, fun p => ?_⟩, fun p s n hp => ?_, fun p s c hp => ?_, fun p hp => ?_,
    fun p q hp _ => ?_⟩
  · rw [hstart]
    rfl
  · cases (hstart p).symm.trans hp
  · cases (hstart p).symm.trans hp
  · rw [hstart] at hp
    cases hp
  · rw [hstart] at hp
    cases hp

/-- **One identity.**  However any number of processes run `load_or_generate` on one file,
with any of their calls failing and any of them killed, all that come out have the same
identity and at most one has made it; the file then holds it for good.  A file that was
there is never changed and nobody comes out with anything else, and a file that is not
32 bytes long and is not being written lets nobody out ever after. -/
theorem identity_agreement {w : World P} (hstart : ∀ p, w.pc p = .start)
    (as : List (Action P)) : IdentityAgreement w as := by
  have hrun : ∀ as, Owned w.file (run step w as) :=
    run_invariant (fun _ a h => h.step a) (owned_start hstart)
  have howned := hrun as
  refine ⟨fun p q s t c d hp hq => ?_, fun p q s t hp hq => ?_, fun p s c hp later => ?_,
    fun b hb => ?_, fun b hb hlen hnone later p s c hp => ?_⟩
  · have heq := (howned.loaded p s c hp).symm.trans (howned.loaded q t d hq)
    cases s
    cases t
    cases Option.some.inj heq
    rfl
  · exact howned.unique p q (by rw [hp]; rfl) (by rw [hq]; rfl)
  · have hsettled : Settled s.bytes (run step w as) := ⟨howned.loaded p s c hp, Or.inl s.size⟩
    rw [run_append]
    exact (hsettled.run howned later).1
  · have hsettled : Settled b w := ⟨hb, Or.inr fun p s n hp => by cases (hstart p).symm.trans hp⟩
    have hfile := (hsettled.run (owned_start hstart) as).1
    refine ⟨hfile, fun p s c hp => ⟨?_, ?_⟩⟩
    · exact Option.some.inj ((howned.loaded p s c hp).symm.trans hfile)
    · cases c with
      | false => rfl
      | true =>
        have hnew := howned.made p (by rw [hp]; rfl)
        rw [hb] at hnew
        cases hnew
  · have hsettled : Settled b (run step w as) := ⟨hb, Or.inr hnone⟩
    have hfile := (hsettled.run howned later).1
    rw [← run_append] at hfile
    have hloaded := (hrun (as ++ later)).loaded p s c hp
    rw [Option.some.inj (hfile.symm.trans hloaded)] at hlen
    exact hlen s.size

/-- Three processes and no file. -/
def fresh : World (Fin 3) := ⟨none, fun _ => .start⟩

/-- Two of them find no file; the first makes it and the third reads it. -/
def racingCalls : List (Action (Fin 3)) :=
  [.checkExists 0 (.replicate 1), .checkExists 1 (.replicate 2), .create 0, .create 1,
    .write 0 20, .write 0 20, .checkExists 2 (.replicate 3), .read 2, .finish 0]

theorem racing_agreement :
    [0, 1, 2].map (run step fresh racingCalls).pc =
      [.loaded (.replicate 1) true, .failed .io, .loaded (.replicate 1) false] ∧
    IdentityAgreement fresh racingCalls := by
  refine ⟨?_, identity_agreement (fun _ => rfl) _⟩
  decide +kernel

end IdentityStore

end Parseh.Miner
