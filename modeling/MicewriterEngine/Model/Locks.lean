import Mathlib.Data.Fintype.Basic
import Mathlib.Logic.Function.Basic
import MicewriterEngine.Lib.Waiting

/-!
# The locks of the store and the threads that take them

Tokio workers run `append_batch` and the short calls on `orphaned_cfs`. `rotate`,
`drop_frozen_cf` and `compile_cf_pipeline` run on blocking threads. A thread is shown by the
lock that it waits for or holds, and starts again when its call is over. A `block_on` of a
compile ends when a worker that is not blocked delivers the I/O event.
-/

namespace MicewriterEngine

/-- What the threads do with a readers-writer lock. -/
structure LockUse where
  readHeld : Prop
  writeHeld : Prop
  writeWanted : Prop

/-- A reader gets in beside other readers, and after the waiting writers if these come first. -/
def LockUse.CanRead (l : LockUse) (writersFirst : Prop) : Prop := ¬l.writeHeld ∧ (writersFirst → ¬l.writeWanted)

def LockUse.CanWrite (l : LockUse) : Prop := ¬l.writeHeld ∧ ¬l.readHeld

/-! ### Threads -/

/-- `append_batch` up to its return, or a call that reads or writes `orphaned_cfs`. -/
inductive Worker
  | idle
  | wantActive
  | inActive
  | wantDb
  | inDb
  | wantOrphans (write : Bool)
  | inOrphans (write : Bool)
  deriving DecidableEq

/-- `rotate` holds `active_cf` from `wantDb` on and `db` only in `inDb`. -/
inductive Rotate
  | idle
  | wantActive
  | wantDb
  | inDb
  | wantSizes
  | inSizes
  | resetting
  deriving DecidableEq

/-- `drop_frozen_cf` holds one lock at a time. -/
inductive Drop
  | idle
  | wantDb
  | inDb
  | wantSizes
  | inSizes
  deriving DecidableEq

/-- `compile_cf_pipeline` waits for I/O before `iterate_cf`, inside it and after it. -/
inductive Compile
  | idle
  | building
  | wantDb
  | inDb
  | writing
  | closing
  deriving DecidableEq

/-- The threads of a process, with any finite number of each kind. -/
structure Threads (ω ρ δ κ : Type) where
  workers : ω → Worker
  rotates : ρ → Rotate
  drops : δ → Drop
  compiles : κ → Compile

inductive ThreadId (ω ρ δ κ : Type)
  | worker (w : ω)
  | rotate (r : ρ)
  | drop (d : δ)
  | compile (k : κ)

namespace Threads

variable {ω ρ δ κ : Type} (x : Threads ω ρ δ κ)

def start : Threads ω ρ δ κ := ⟨fun _ => .idle, fun _ => .idle, fun _ => .idle, fun _ => .idle⟩

def activeCf : LockUse where
  readHeld := ∃ w, x.workers w = .inActive
  writeHeld := ∃ r, x.rotates r ≠ .idle ∧ x.rotates r ≠ .wantActive
  writeWanted := ∃ r, x.rotates r = .wantActive

def db : LockUse where
  readHeld := (∃ w, x.workers w = .inDb) ∨ ∃ k, x.compiles k = .inDb ∨ x.compiles k = .writing
  writeHeld := (∃ r, x.rotates r = .inDb) ∨ ∃ d, x.drops d = .inDb
  writeWanted := (∃ r, x.rotates r = .wantDb) ∨ ∃ d, x.drops d = .wantDb

def frozenCfSizes : LockUse where
  readHeld := False
  writeHeld := (∃ r, x.rotates r = .inSizes) ∨ ∃ d, x.drops d = .inSizes
  writeWanted := (∃ r, x.rotates r = .wantSizes) ∨ ∃ d, x.drops d = .wantSizes

def orphanedCfs : LockUse where
  readHeld := ∃ w, x.workers w = .inOrphans false
  writeHeld := ∃ w, x.workers w = .inOrphans true
  writeWanted := ∃ w, x.workers w = .wantOrphans true

variable (writersFirst : Prop)

inductive WorkerStep : Worker → Worker → Prop
  | append : WorkerStep .idle .wantActive
  | readActive (hlock : x.activeCf.CanRead writersFirst) : WorkerStep .wantActive .inActive
  /-- The guard is dropped as soon as the name is cloned. -/
  | cloned : WorkerStep .inActive .wantDb
  | readDb (hlock : x.db.CanRead writersFirst) : WorkerStep .wantDb .inDb
  | appended : WorkerStep .inDb .idle
  | useOrphans (write : Bool) : WorkerStep .idle (.wantOrphans write)
  | readOrphans (hlock : x.orphanedCfs.CanRead writersFirst) : WorkerStep (.wantOrphans false) (.inOrphans false)
  | writeOrphans (hlock : x.orphanedCfs.CanWrite) : WorkerStep (.wantOrphans true) (.inOrphans true)
  | usedOrphans (write : Bool) : WorkerStep (.inOrphans write) .idle

def Blocked (w : ω) : Prop := ∀ pc, ¬x.WorkerStep writersFirst (x.workers w) pc

inductive RotateStep : Rotate → Rotate → Prop
  | call : RotateStep .idle .wantActive
  | writeActive (hlock : x.activeCf.CanWrite) : RotateStep .wantActive .wantDb
  | writeDb (hlock : x.db.CanWrite) : RotateStep .wantDb .inDb
  | created : RotateStep .inDb .wantSizes
  /-- `create_cf` fails and `?` returns. -/
  | createFailed : RotateStep .inDb .idle
  | writeSizes (hlock : x.frozenCfSizes.CanWrite) : RotateStep .wantSizes .inSizes
  | inserted : RotateStep .inSizes .resetting
  | rotated : RotateStep .resetting .idle

inductive DropStep : Drop → Drop → Prop
  | call : DropStep .idle .wantDb
  | writeDb (hlock : x.db.CanWrite) : DropStep .wantDb .inDb
  | dropped : DropStep .inDb .wantSizes
  /-- `drop_cf` fails and `?` returns. -/
  | dropFailed : DropStep .inDb .idle
  | writeSizes (hlock : x.frozenCfSizes.CanWrite) : DropStep .wantSizes .inSizes
  | removed : DropStep .inSizes .idle

inductive CompileStep : Compile → Compile → Prop
  | call : CompileStep .idle .building
  | built (hfree : ∃ w, ¬x.Blocked writersFirst w) : CompileStep .building .wantDb
  | buildFailed (hfree : ∃ w, ¬x.Blocked writersFirst w) : CompileStep .building .idle
  | readDb (hlock : x.db.CanRead writersFirst) : CompileStep .wantDb .inDb
  /-- Ten thousand events are collected and the callback writes them out. -/
  | write : CompileStep .inDb .writing
  | written (hfree : ∃ w, ¬x.Blocked writersFirst w) : CompileStep .writing .inDb
  /-- `iterate_cf` returns. The remaining events are written and the writer is closed. -/
  | iterated : CompileStep .inDb .closing
  | closed (hfree : ∃ w, ¬x.Blocked writersFirst w) : CompileStep .closing .idle

variable [DecidableEq ω] [DecidableEq ρ] [DecidableEq δ] [DecidableEq κ]

inductive Step : Threads ω ρ δ κ → ThreadId ω ρ δ κ → Threads ω ρ δ κ → Prop
  | worker {x : Threads ω ρ δ κ} (w : ω) {pc : Worker} (h : x.WorkerStep writersFirst (x.workers w) pc) :
      Step x (.worker w) { x with workers := Function.update x.workers w pc }
  | rotate {x : Threads ω ρ δ κ} (r : ρ) {pc : Rotate} (h : x.RotateStep (x.rotates r) pc) :
      Step x (.rotate r) { x with rotates := Function.update x.rotates r pc }
  | drop {x : Threads ω ρ δ κ} (d : δ) {pc : Drop} (h : x.DropStep (x.drops d) pc) :
      Step x (.drop d) { x with drops := Function.update x.drops d pc }
  | compile {x : Threads ω ρ δ κ} (k : κ) {pc : Compile} (h : x.CompileStep writersFirst (x.compiles k) pc) :
      Step x (.compile k) { x with compiles := Function.update x.compiles k pc }

end Threads

end MicewriterEngine
