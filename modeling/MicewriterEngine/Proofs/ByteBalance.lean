import MicewriterEngine.Lib.MapTotal
import MicewriterEngine.Model.ByteAccounting
import MicewriterEngine.Proofs.StoreSteps

/-!
# The byte counters balance

An append counts its bytes in the total a little later than in the active column family.
The bytes of a column family that is being dropped are not among these, because its drop
waits for all appends. So the total never falls below what a drop subtracts, unless a
rotation inserts a size over one that is still tracked.
-/

namespace MicewriterEngine.Proofs
open Lib

variable {p q : OpenCalls} {e : BytesEvent}

/-- The equation between the counters. -/
def Balanced (s : RocksStore) : Prop := s.totalUnflushedBytes = s.activeCfBytes + mapTotal s.frozenCfSizes

/-- No call is in progress. -/
def Quiet (p : OpenCalls) : Prop := p.appends = 0 ∧ p.rotation = none ∧ p.drops = 0

structure BytesAccounted (p : OpenCalls) : Prop where
  noUnderflow : ∀ size, DropPhase.removed size ∈ p.drops → size ≤ p.store.totalUnflushedBytes
  balanced : Quiet p → Balanced p.store

/-- Bytes that are counted as active and not in the total yet. -/
def pendingOf : AppendPhase → ℕ
  | .cloned _ _ => 0
  | .written _ => 0
  | .counted batchBytes => batchBytes

/-- Bytes that a rotation took from the active column family. -/
def rotationBytes : Option RotatePhase → ℕ
  | none => 0
  | some (.switched _) => 0
  | some (.swapped _ frozenBytes) => frozenBytes

def rotationName : Option RotatePhase → Option String
  | some (.switched frozen) => some frozen
  | some (.swapped frozen _) => some frozen
  | none => none

/-- Bytes that a drop is about to subtract. -/
def removedOf : DropPhase → ℕ
  | .called _ => 0
  | .dropped _ => 0
  | .removed size => size

/-- The column family of a drop, as long as its size is tracked. -/
def droppingOf : DropPhase → Multiset String
  | .called name => {name}
  | .dropped name => {name}
  | .removed _ => 0

/-- The same, once RocksDB has dropped it. -/
def droppedOf : DropPhase → Multiset String
  | .called _ => 0
  | .dropped name => {name}
  | .removed _ => 0

def pendingBytes (appends : Multiset AppendPhase) : ℕ := (appends.map pendingOf).sum

def removedBytes (drops : Multiset DropPhase) : ℕ := (drops.map removedOf).sum

def droppingNames (drops : Multiset DropPhase) : Multiset String := (drops.map droppingOf).sum

def droppedNames (drops : Multiset DropPhase) : Multiset String := (drops.map droppedOf).sum

/-- The true number of bytes that are active, frozen or being dropped. -/
def trackedBytes (p : OpenCalls) : ℕ :=
  p.store.activeCfBytes + rotationBytes p.rotation + mapTotal p.store.frozenCfSizes + removedBytes p.drops

/-- The true sums stay below 2^64. -/
def SumsFit (p : OpenCalls) : BytesEvent → Prop
  | .addActive batchBytes => trackedBytes p + batchBytes < 2 ^ 64
  | _ => True

/-- A rotation does not insert a size over one that is still tracked. -/
def NotOverwritten (p : OpenCalls) : BytesEvent → Prop
  | .insert _ => ∀ frozen, rotationName p.rotation = some frozen → frozen ∉ p.store.frozenCfSizes
  | _ => True

lemma pendingBytes_cons (call : AppendPhase) (rest : Multiset AppendPhase) :
    pendingBytes (call ::ₘ rest) = pendingOf call + pendingBytes rest := by
  rw [pendingBytes, Multiset.map_cons, Multiset.sum_cons, ← pendingBytes]

lemma removedBytes_cons (call : DropPhase) (rest : Multiset DropPhase) :
    removedBytes (call ::ₘ rest) = removedOf call + removedBytes rest := by
  rw [removedBytes, Multiset.map_cons, Multiset.sum_cons, ← removedBytes]

lemma droppingNames_cons (call : DropPhase) (rest : Multiset DropPhase) :
    droppingNames (call ::ₘ rest) = droppingOf call + droppingNames rest := by
  rw [droppingNames, Multiset.map_cons, Multiset.sum_cons, ← droppingNames]

lemma droppedNames_cons (call : DropPhase) (rest : Multiset DropPhase) :
    droppedNames (call ::ₘ rest) = droppedOf call + droppedNames rest := by
  rw [droppedNames, Multiset.map_cons, Multiset.sum_cons, ← droppedNames]

lemma droppedNames_le (drops : Multiset DropPhase) : droppedNames drops ≤ droppingNames drops := by
  induction drops using Multiset.induction with
  | empty => exact le_rfl
  | cons call drops ih =>
    rw [droppedNames_cons, droppingNames_cons]
    cases call with
    | called name => exact add_le_add (Multiset.zero_le _) ih
    | dropped name => exact add_le_add le_rfl ih
    | removed size => exact add_le_add le_rfl ih

/-- Calls that do not hold `db` have nothing pending. -/
lemma pendingBytes_eq_zero {appends : Multiset AppendPhase} (h : ∀ call ∈ appends, ¬call.InDb) :
    pendingBytes appends = 0 := by
  induction appends using Multiset.induction with
  | empty => rfl
  | cons call appends ih =>
    have hrest := ih (fun other hother => h other (Multiset.mem_cons_of_mem hother))
    cases call with
    | cloned cf values => rw [pendingBytes_cons, hrest, pendingOf]
    | written batchBytes => exact absurd trivial (h _ (Multiset.mem_cons_self _ _))
    | counted batchBytes => exact absurd trivial (h _ (Multiset.mem_cons_self _ _))

/-- Column families that can still be dropped. -/
def heldNames (p : OpenCalls) : Multiset String := p.frozen + droppingNames p.drops

/-- Each is held once, and its size is tracked. -/
structure NamesTracked (p : OpenCalls) : Prop where
  nodup : (heldNames p).Nodup
  sizes : ∀ name ∈ heldNames p, name ∈ p.store.frozenCfSizes

/-- A step that keeps the names, or lets go of some. -/
lemma NamesTracked.of_le (hp : NamesTracked p) (hsizes : q.store.frozenCfSizes = p.store.frozenCfSizes)
    (hheld : heldNames q ≤ heldNames p) : NamesTracked q where
  nodup := Multiset.nodup_of_le hheld hp.nodup
  sizes := by
    rw [hsizes]
    exact fun name hname => hp.sizes name (Multiset.mem_of_le hheld hname)

lemma heldNames_drops {call : DropPhase} {rest : Multiset DropPhase} (hcall : p.drops = call ::ₘ rest) :
    heldNames p = droppingOf call + (p.frozen + droppingNames rest) := by
  rw [heldNames, hcall, droppingNames_cons, add_left_comm]

/-- A drop whose size is tracked is the only one of its name. -/
lemma NamesTracked.notMem_rest (hp : NamesTracked p) {name : String} {rest : Multiset DropPhase}
    (hcall : p.drops = .dropped name ::ₘ rest) :
    name ∉ p.frozen + droppingNames rest ∧ (p.frozen + droppingNames rest).Nodup := by
  have hheld := hp.nodup
  rw [heldNames_drops hcall, droppingOf, Multiset.singleton_add] at hheld
  exact Multiset.nodup_cons.mp hheld

lemma NamesTracked.step (hp : NamesTracked p) (hkept : NotOverwritten p e) (h : BytesStep p e q) :
    NamesTracked q := by
  cases h with
  | clone | write | writeFailed | writeMissing | addActive | addTotal | switch | swap => exact hp.of_le rfl le_rfl
  | insert draw hrotation hsizes =>
    rename_i frozen frozenBytes
    have hnew : frozen ∉ p.store.frozenCfSizes := hkept frozen (by rw [hrotation]; rfl)
    have hcons : ∀ store, heldNames { p with store := store, rotation := none, frozen := frozen ::ₘ p.frozen } =
        frozen ::ₘ heldNames p := fun _ => Multiset.cons_add _ _ _
    refine ⟨?_, ?_⟩
    · rw [hcons]
      exact Multiset.nodup_cons.mpr ⟨fun hmem => hnew (hp.sizes frozen hmem), hp.nodup⟩
    · rw [hcons]
      intro name hname
      exact (AList.mem_insert _).mpr ((Multiset.mem_cons.mp hname).imp_right (hp.sizes name))
  | callDrop hfrozen =>
    refine hp.of_le rfl (le_of_eq ?_)
    rw [heldNames, heldNames, hfrozen, droppingNames_cons, droppingOf, Multiset.singleton_add, Multiset.cons_add,
      Multiset.add_cons]
  | dropCf hcall hdb hdrop =>
    refine hp.of_le rfl (le_of_eq ?_)
    rw [heldNames_drops hcall, heldNames_drops rfl]
    rfl
  | dropCfFailed hcall | removeNone hcall =>
    refine hp.of_le rfl ?_
    rw [heldNames_drops hcall]
    exact Multiset.le_add_left _ _
  | remove hcall hlock hsize =>
    rename_i name size rest
    obtain ⟨hname, hnodup⟩ := hp.notMem_rest hcall
    have hrest : ∀ store, heldNames { p with store := store, drops := .removed size ::ₘ rest } =
        p.frozen + droppingNames rest := by
      intro store
      rw [heldNames_drops rfl, droppingOf, zero_add]
    refine ⟨?_, ?_⟩
    · rw [hrest]
      exact hnodup
    · rw [hrest]
      intro other hother
      refine AList.mem_erase.mpr ⟨fun heq => hname (heq ▸ hother), hp.sizes other ?_⟩
      rw [heldNames_drops hcall]
      exact Multiset.mem_add.mpr (Or.inr hother)
  | subtract hcall =>
    refine hp.of_le rfl (le_of_eq ?_)
    rw [heldNames_drops hcall, droppingOf, zero_add]
    rfl

/-- A column family that RocksDB has dropped is held. -/
lemma droppedNames_sub {name : String} (hname : name ∈ droppedNames p.drops) : name ∈ heldNames p :=
  Multiset.mem_add.mpr (Or.inr (Multiset.mem_of_le (droppedNames_le p.drops) hname))

/-! ### Sums -/

structure SumsBalanced (p : OpenCalls) : Prop where
  sum : p.store.totalUnflushedBytes + pendingBytes p.appends = trackedBytes p
  /-- What drops subtract, now or after they removed the size, is in the total. -/
  leaving : removedBytes p.drops + keysTotal p.store.frozenCfSizes (droppedNames p.drops) ≤
    p.store.totalUnflushedBytes
  small : trackedBytes p < 2 ^ 64

/-- A step that moves no bytes. -/
lemma SumsBalanced.of_eq (hp : SumsBalanced p) (htotal : q.store.totalUnflushedBytes = p.store.totalUnflushedBytes)
    (hpending : pendingBytes q.appends = pendingBytes p.appends) (htracked : trackedBytes q = trackedBytes p)
    (hleaving : removedBytes q.drops + keysTotal q.store.frozenCfSizes (droppedNames q.drops) ≤
      removedBytes p.drops + keysTotal p.store.frozenCfSizes (droppedNames p.drops)) : SumsBalanced q where
  sum := by rw [htotal, hpending, htracked]; exact hp.sum
  leaving := by rw [htotal]; exact hleaving.trans hp.leaving
  small := by rw [htracked]; exact hp.small

/-- When a drop starts, no append is in progress, and the total has all bytes of its column family. -/
lemma SumsBalanced.drop (hp : SumsBalanced p) (hnames : NamesTracked p) {name : String} {rest : Multiset DropPhase}
    (hcall : p.drops = .called name ::ₘ rest) (hdb : ∀ call ∈ p.appends, ¬call.InDb) :
    removedBytes rest + keysTotal p.store.frozenCfSizes (name ::ₘ droppedNames rest) ≤
      p.store.totalUnflushedBytes := by
  have hheld : name ::ₘ droppedNames rest ≤ heldNames p := by
    rw [heldNames, hcall, droppingNames_cons, droppingOf, Multiset.singleton_add]
    exact (Multiset.cons_le_cons name (droppedNames_le rest)).trans (Multiset.le_add_left _ _)
  have hle : keysTotal p.store.frozenCfSizes (name ::ₘ droppedNames rest) ≤ mapTotal p.store.frozenCfSizes :=
    keysTotal_le (Multiset.nodup_of_le hheld hnames.nodup)
      (fun other hother => hnames.sizes other (Multiset.mem_of_le hheld hother))
  have hsum := hp.sum
  rw [pendingBytes_eq_zero hdb, trackedBytes, hcall, removedBytes_cons, removedOf] at hsum
  omega

lemma SumsBalanced.step (hp : SumsBalanced p) (hnames : NamesTracked p) (hfit : SumsFit p e)
    (hkept : NotOverwritten p e) (h : BytesStep p e q) : SumsBalanced q := by
  have hsum := hp.sum
  have hleaving := hp.leaving
  have hsmall := hp.small
  cases h with
  | clone hvalues hlock =>
    refine hp.of_eq rfl ?_ rfl le_rfl
    rw [pendingBytes_cons, pendingOf, zero_add]
  | write hcall hcf =>
    refine hp.of_eq rfl ?_ rfl le_rfl
    rw [hcall, pendingBytes_cons, pendingBytes_cons, pendingOf, pendingOf]
  | writeFailed hcall hcf | writeMissing hcall hcf =>
    refine hp.of_eq rfl ?_ rfl le_rfl
    rw [hcall, pendingBytes_cons, pendingOf, zero_add]
  | addActive hcall =>
    rename_i batchBytes rest
    have hfits : trackedBytes p + batchBytes < 2 ^ 64 := hfit
    have hactive : u64 (p.store.activeCfBytes + batchBytes) = p.store.activeCfBytes + batchBytes := by
      refine Nat.mod_eq_of_lt ?_
      rw [trackedBytes] at hfits
      omega
    rw [hcall, pendingBytes_cons, pendingOf] at hsum
    rw [trackedBytes] at hsum hfits
    refine ⟨?_, hleaving, ?_⟩
    · rw [trackedBytes, pendingBytes_cons, pendingOf]
      dsimp only
      rw [hactive]
      omega
    · rw [trackedBytes]
      dsimp only
      rw [hactive]
      omega
  | addTotal hcall =>
    rename_i batchBytes rest
    rw [hcall, pendingBytes_cons, pendingOf] at hsum
    have htotal : u64 (p.store.totalUnflushedBytes + batchBytes) = p.store.totalUnflushedBytes + batchBytes := by
      refine Nat.mod_eq_of_lt ?_
      omega
    refine ⟨?_, ?_, hsmall⟩
    · dsimp only
      rw [htotal, add_assoc]
      exact hsum
    · dsimp only
      rw [htotal]
      exact hleaving.trans (Nat.le_add_right _ _)
  | switch ts hlock hdb hcreate =>
    refine hp.of_eq rfl rfl ?_ le_rfl
    rw [trackedBytes, trackedBytes, hlock]
    rfl
  | swap hrotation =>
    refine hp.of_eq rfl rfl ?_ le_rfl
    rw [trackedBytes, trackedBytes, hrotation, rotationBytes, rotationBytes]
    dsimp only
    omega
  | insert draw hrotation hsizes =>
    rename_i frozen frozenBytes
    have hnew : frozen ∉ p.store.frozenCfSizes := hkept frozen (by rw [hrotation]; rfl)
    have hnot : frozen ∉ droppedNames p.drops := fun hmem => hnew (hnames.sizes frozen (droppedNames_sub hmem))
    refine hp.of_eq rfl rfl ?_ ?_
    · rw [trackedBytes, trackedBytes, hrotation, rotationBytes, rotationBytes]
      dsimp only [RocksStore.resetSizeLimit]
      rw [mapTotal_insert hnew]
      omega
    · dsimp only [RocksStore.resetSizeLimit]
      rw [keysTotal_insert hnot]
  | callDrop hfrozen =>
    refine hp.of_eq rfl rfl ?_ ?_
    · rw [trackedBytes, trackedBytes, removedBytes_cons, removedOf, zero_add]
    · rw [removedBytes_cons, removedOf, zero_add, droppedNames_cons, droppedOf, zero_add]
  | dropCf hcall hdb hdrop =>
    have hall := hp.drop hnames hcall hdb
    rw [trackedBytes, hcall, removedBytes_cons, removedOf] at hsum hsmall
    refine ⟨?_, ?_, ?_⟩
    · rw [trackedBytes, removedBytes_cons, removedOf]
      exact hsum
    · rw [removedBytes_cons, removedOf, zero_add, droppedNames_cons, droppedOf, Multiset.singleton_add]
      exact hall
    · rw [trackedBytes, removedBytes_cons, removedOf]
      exact hsmall
  | dropCfFailed hcall =>
    refine hp.of_eq rfl rfl ?_ ?_
    · rw [trackedBytes, trackedBytes, hcall, removedBytes_cons, removedOf, zero_add]
    · rw [hcall, removedBytes_cons, removedOf, zero_add, droppedNames_cons, droppedOf, zero_add]
  | remove hcall hlock hsize =>
    rename_i name size rest
    have hmem : name ∈ p.store.frozenCfSizes := AList.lookup_isSome.mp (by rw [hsize]; rfl)
    have hvalue : valueOf p.store.frozenCfSizes name = size := by rw [valueOf, hsize, Option.getD_some]
    have hnot : name ∉ droppedNames rest := by
      intro hname
      refine (hnames.notMem_rest hcall).1 (Multiset.mem_add.mpr (Or.inr ?_))
      exact Multiset.mem_of_le (droppedNames_le rest) hname
    have htotal := mapTotal_erase hmem
    rw [hvalue] at htotal
    refine hp.of_eq rfl rfl ?_ (le_of_eq ?_)
    · rw [trackedBytes, trackedBytes, hcall, removedBytes_cons, removedBytes_cons, removedOf, removedOf]
      dsimp only
      omega
    · rw [hcall, removedBytes_cons, removedBytes_cons, removedOf, removedOf, droppedNames_cons, droppedNames_cons,
        droppedOf, droppedOf, Multiset.singleton_add, keysTotal_cons, hvalue, zero_add]
      dsimp only
      rw [keysTotal_erase hnot]
      omega
  | removeNone hcall hlock hsize =>
    refine hp.of_eq rfl rfl ?_ ?_
    · rw [trackedBytes, trackedBytes, hcall, removedBytes_cons, removedOf, zero_add]
    · rw [hcall, removedBytes_cons, removedOf, zero_add, droppedNames_cons, droppedOf, Multiset.singleton_add,
        keysTotal_cons]
      dsimp only
      omega
  | subtract hcall =>
    rename_i size rest
    rw [hcall, removedBytes_cons, removedOf, droppedNames_cons, droppedOf, zero_add] at hleaving
    rw [trackedBytes, hcall, removedBytes_cons, removedOf] at hsum hsmall
    have htotal : u64 (p.store.totalUnflushedBytes + (2 ^ 64 - size)) = p.store.totalUnflushedBytes - size := by
      rw [u64]
      omega
    refine ⟨?_, ?_, ?_⟩
    · rw [trackedBytes]
      dsimp only
      rw [htotal]
      omega
    · dsimp only
      rw [htotal]
      omega
    · rw [trackedBytes]
      dsimp only
      omega

lemma not_inDb_zero : ∀ call ∈ (0 : Multiset AppendPhase), ¬call.InDb :=
  fun _ hmem => absurd hmem (Multiset.notMem_zero _)

lemma not_inSizes_zero : ∀ call ∈ (0 : Multiset DropPhase), ¬call.InSizes :=
  fun _ hmem => absurd hmem (Multiset.notMem_zero _)

/-- A call of `append_batch` that nothing interrupts. -/
theorem appendBatch_run (s : RocksStore) (values : List Bytes) (writeOk : Bool) (frozen : Multiset String) :
    ∃ es, Run BytesStep (.idle s frozen) es (.idle (s.appendBatch values writeOk).2 frozen) := by
  unfold RocksStore.appendBatch
  split
  · exact ⟨[], .nil _⟩
  · rename_i hvalues
    have hclone : BytesStep (.idle s frozen) (.clone values)
        { OpenCalls.idle s frozen with appends := .cloned s.activeCf values ::ₘ 0 } :=
      .clone (fun hnil => hvalues (List.isEmpty_iff.mpr hnil)) rfl
    unfold RocksStore.writeBatch
    split
    · rename_i hcf
      exact ⟨_, .cons hclone (.cons (.writeMissing rfl hcf) (.nil _))⟩
    · rename_i cf hcf
      cases writeOk with
      | false => exact ⟨_, .cons hclone (.cons (.writeFailed rfl hcf) (.nil _))⟩
      | true =>
        exact ⟨_, .cons hclone (.cons (.write rfl hcf) (.cons (.addActive rfl) (.cons (.addTotal rfl) (.nil _))))⟩

/-- A call of `rotate` that nothing interrupts. -/
theorem rotate_run {s : RocksStore} {ts : ℕ} {createOk : Bool} {draw : ℕ} {name : String}
    (h : (s.rotate ts createOk draw).1 = .ok name) (frozen : Multiset String) :
    Run BytesStep (.idle s frozen) [.switch ts, .swap, .insert draw]
      (.idle (s.rotate ts createOk draw).2 (name ::ₘ frozen)) := by
  unfold RocksStore.rotate at h ⊢
  dsimp only at h ⊢
  split at h
  · cases h
  · rename_i db hcreate
    cases h
    cases createOk with
    | false => cases hcreate
    | true =>
        exact .cons (.switch ts rfl not_inDb_zero hcreate) (.cons (.swap rfl)
          (.cons (.insert draw rfl not_inSizes_zero) (.nil _)))

/-- A call of `drop_frozen_cf` that nothing interrupts. -/
theorem dropFrozenCf_run (s : RocksStore) (name : String) (dropOk : Bool) (frozen : Multiset String) :
    ∃ es, Run BytesStep (.idle s (name ::ₘ frozen)) es (.idle (s.dropFrozenCf name dropOk).2 frozen) := by
  unfold RocksStore.dropFrozenCf
  split
  · exact ⟨_, .cons (.callDrop rfl) (.cons (.dropCfFailed rfl) (.nil _))⟩
  · rename_i db hdrop
    cases dropOk with
    | false => cases hdrop
    | true =>
      dsimp only
      split
      · rename_i size hsize
        exact ⟨_, .cons (.callDrop rfl) (.cons (.dropCf rfl not_inDb_zero hdrop)
          (.cons (.remove rfl not_inSizes_zero hsize) (.cons (.subtract rfl) (.nil _))))⟩
      · rename_i hsize
        exact ⟨_, .cons (.callDrop rfl) (.cons (.dropCf rfl not_inDb_zero hdrop)
          (.cons (.removeNone rfl not_inSizes_zero hsize) (.nil _)))⟩

structure BytesInv (p : OpenCalls) : Prop where
  names : NamesTracked p
  sums : SumsBalanced p

lemma bytesInv_start {s : RocksStore} (hbalanced : Balanced s) (hsmall : s.totalUnflushedBytes < 2 ^ 64) :
    BytesInv (.start s) := by
  have htracked : trackedBytes (.start s) = s.totalUnflushedBytes := hbalanced.symm
  have hheld : heldNames (.start s) = (s.frozenCfSizes.keys : Multiset String) := Multiset.add_zero _
  refine ⟨⟨?_, ?_⟩, ?_, Nat.zero_le _, ?_⟩
  · rw [hheld]
    exact s.frozenCfSizes.keys_nodup
  · rw [hheld]
    exact fun name hname => AList.mem_keys.mpr hname
  · rw [htracked]
    rfl
  · rw [htracked]
    exact hsmall

lemma BytesInv.accounted (hp : BytesInv p) : BytesAccounted p := by
  refine ⟨fun size hsize => ?_, fun hquiet => ?_⟩
  · obtain ⟨rest, hrest⟩ := Multiset.exists_cons_of_mem hsize
    have hleaving := hp.sums.leaving
    rw [hrest, removedBytes_cons, removedOf] at hleaving
    omega
  · obtain ⟨happends, hrotation, hdrops⟩ := hquiet
    have hsum := hp.sums.sum
    rw [trackedBytes, happends, hrotation, hdrops] at hsum
    exact hsum

/-- No drop subtracts more than the total, and the counters agree when no call is in progress, as
long as no rotation inserts a size over one that a drop has yet to remove. -/
theorem bytes_accounted {s : RocksStore} {es : List BytesEvent} (hbalanced : Balanced s)
    (hsmall : s.totalUnflushedBytes < 2 ^ 64)
    (h : Run (Guarded BytesStep (fun p e => SumsFit p e ∧ NotOverwritten p e)) (.start s) es p) :
    BytesAccounted p := by
  have hinv : BytesInv p := by
    refine h.invariant BytesInv (fun p e q hp hstep => ?_) (bytesInv_start hbalanced hsmall)
    obtain ⟨⟨hfit, hkept⟩, hstep⟩ := hstep
    exact ⟨hp.names.step hkept hstep, hp.sums.step hp.names hfit hkept hstep⟩
  exact hinv.accounted

/-- A rotation overlaps an append, whose byte is counted for the next column family. -/
theorem bytes_accounted_overlapping :
    ∃ p : OpenCalls, Quiet p ∧ p.store.totalUnflushedBytes = 1 ∧ p.store.activeCfBytes = 1 ∧
      p.store.activeCf = "active_5" ∧ BytesAccounted p := by
  have hcloned : ∀ call ∈ ({.cloned "active" [[1]]} : Multiset AppendPhase), ¬call.InDb := by
    intro call hcall
    rw [Multiset.mem_singleton.mp hcall]
    exact id
  have hfits : 0 + 1 < 2 ^ 64 := by decide
  have hrun : Run (Guarded BytesStep (fun p e => SumsFit p e ∧ NotOverwritten p e)) (.start freshStore)
      [.clone [[1]], .switch 5, .write, .swap, .addActive 1, .insert 0, .addTotal 1,
        .callDrop "active", .dropCf "active", .remove "active", .subtract 0] _ :=
    .cons ⟨⟨trivial, trivial⟩, .clone (by decide) rfl⟩ (.cons ⟨⟨trivial, trivial⟩, .switch 5 rfl hcloned rfl⟩
      (.cons ⟨⟨trivial, trivial⟩, @BytesStep.write _ "active" .empty [[1]] 0 rfl rfl⟩
      (.cons ⟨⟨trivial, trivial⟩, .swap rfl⟩ (.cons ⟨⟨hfits, trivial⟩, @BytesStep.addActive _ 1 0 rfl⟩
      (.cons ⟨⟨trivial, fun _ _ => AList.notMem_empty _⟩, .insert 0 rfl not_inSizes_zero⟩
      (.cons ⟨⟨trivial, trivial⟩, @BytesStep.addTotal _ 1 0 rfl⟩
      (.cons ⟨⟨trivial, trivial⟩, @BytesStep.callDrop _ "active" 0 rfl⟩
      (.cons ⟨⟨trivial, trivial⟩, @BytesStep.dropCf _ "active" 0 _ rfl not_inDb_zero rfl⟩
      (.cons ⟨⟨trivial, trivial⟩, @BytesStep.remove _ "active" 0 0 rfl not_inSizes_zero rfl⟩
      (.cons ⟨⟨trivial, trivial⟩, @BytesStep.subtract _ 0 0 rfl⟩ (.nil _)))))))))))
  have hbalanced : Balanced freshStore := rfl
  exact ⟨_, ⟨rfl, rfl, rfl⟩, rfl, rfl, rfl, bytes_accounted hbalanced (by decide) hrun⟩

/-- One record is frozen under the name `active_5`. -/
def frozenStore : RocksStore := (((freshStore.rotate 5 true 0).2.appendBatch [[1]] true).2.rotate 6 true 0).2

/-- The clock reads 5 again while `active_5` is dropped, and the next rotation forgets its byte. -/
theorem overwritten_size_stays_in_total :
    ¬∀ (s : RocksStore) (es : List BytesEvent) (p : OpenCalls), Balanced s → s.totalUnflushedBytes < 2 ^ 64 →
      Run (Guarded BytesStep SumsFit) (.start s) es p → BytesAccounted p := by
  intro h
  have hdropping : ∀ call ∈ ({.dropped "active_5"} : Multiset DropPhase), ¬call.InSizes := by
    intro call hcall
    rw [Multiset.mem_singleton.mp hcall]
    exact id
  have hbytes := h frozenStore [.callDrop "active_5", .dropCf "active_5", .switch 5, .swap, .insert 0, .switch 7, .swap,
    .insert 0, .remove "active_5", .subtract 0] _ rfl (by decide)
    (.cons ⟨trivial, @BytesStep.callDrop _ "active_5" {"active"} rfl⟩ (.cons ⟨trivial, .dropCf rfl not_inDb_zero rfl⟩
    (.cons ⟨trivial, .switch 5 rfl not_inDb_zero rfl⟩ (.cons ⟨trivial, .swap rfl⟩
    (.cons ⟨trivial, .insert 0 rfl hdropping⟩
    (.cons ⟨trivial, .switch 7 rfl not_inDb_zero rfl⟩ (.cons ⟨trivial, .swap rfl⟩
    (.cons ⟨trivial, .insert 0 rfl hdropping⟩
    (.cons ⟨trivial, @BytesStep.remove _ "active_5" 0 0 rfl not_inSizes_zero rfl⟩
    (.cons ⟨trivial, @BytesStep.subtract _ 0 0 rfl⟩ (.nil _)))))))))))
  have hbalanced := hbytes.balanced ⟨rfl, rfl, rfl⟩
  cases hbalanced

end MicewriterEngine.Proofs
