import MicewriterEngine.Proofs.CrashRecovery
import MicewriterEngine.Proofs.PipelineStore

/-!
# The invariant of a pod

A running process keeps the invariants of its pipeline, the keys of the directory stay
below the number of keys allotted so far, and records stay in the engine's column families.
What is left when the process ends is enough for the next one to start from.
-/

namespace MicewriterEngine.Proofs
open Lib

variable {p p' : Pipeline} {e : PipelineEvent} {s : RocksStore} {r : Record}

/-- A record that is in the table or in a column family. -/
def Present (p : Pipeline) (r : Record) : Prop := r ∈ p.table ∨ ∃ name, r ∈ p.log name

/-- What a step can do to the column families: nothing, a write, or a drop after a commit. -/
lemma log_cases (h : PipelineStep p e p') :
    p'.log = p.log ∨
      (∃ cf values, e = .write cf values ∧ p.store.logs cf ≠ none ∧ (cf, values) ∈ p.appends ∧
        p'.log = Function.update p.log cf (p.log cf ++ p.newRecords values)) ∨
      ∃ cf, cf ∈ p.committer.droppingCfs ∧ p'.log = Function.update p.log cf [] := by
  cases h with
  | @write cf values rest hcall hlookup =>
    refine Or.inr (Or.inl ⟨cf, values, rfl, hlookup, ?_, ConservationInv.log_write rfl hlookup⟩)
    rw [hcall]
    exact Multiset.mem_cons_self _ _
  | @rotate cfs rest ts hcycle hfresh =>
    left
    funext name
    simp only [Pipeline.log, LogStore.rotate]
    by_cases hname : name = rotatedCf ts
    · subst hname
      rw [Function.update_self, hfresh, Option.getD_some, Option.getD_none]
    · rw [Function.update_of_ne hname]
  | @dropped cf cfs hdropping hexists =>
    refine Or.inr (Or.inr ⟨cf, ?_, ?_⟩)
    · rw [hdropping]
      exact List.mem_cons_self
    · funext name
      simp only [Pipeline.log, LogStore.drop]
      by_cases hname : name = cf
      · subst hname
        rw [Function.update_self, Function.update_self, Option.getD_none]
      · rw [Function.update_of_ne hname, Function.update_of_ne hname]
        rfl
  | _ => exact Or.inl rfl

/-- What a step can do to the table: nothing, or a commit of requests. -/
lemma table_cases (h : PipelineStep p e p') :
    p'.table = p.table ∨
      ∃ batch, p.committer = .committing batch ∧ p'.table = p.table ++ batch.flatMap Request.rows := by
  cases h with
  | committed hcommitting => exact Or.inr ⟨_, hcommitting, rfl⟩
  | _ => exact Or.inl rfl

lemma acked_cases (h : PipelineStep p e p') :
    p'.acked = p.acked ∨
      ∃ cf values, e = .write cf values ∧ p.store.logs cf ≠ none ∧ p'.acked = p.acked ++ p.newRecords values := by
  cases h with
  | write hcall hlookup => exact Or.inr ⟨_, _, rfl, hlookup, rfl⟩
  | _ => exact Or.inl rfl

/-- A record that is in the table or in a column family stays in one of them. -/
lemma present_step (hinv : ConservationInv p) (h : PipelineStep p e p') (hr : Present p r) : Present p' r := by
  have htable : r ∈ p.table → r ∈ p'.table := by
    intro hmem
    rcases table_cases h with heq | ⟨batch, -, heq⟩
    · rwa [heq]
    · rw [heq]
      exact List.mem_append_left _ hmem
  rcases hr with hr | ⟨name, hr⟩
  · exact Or.inl (htable hr)
  · rcases log_cases h with heq | ⟨cf, values, -, hlookup, -, heq⟩ | ⟨cf, hcf, heq⟩
    · exact Or.inr ⟨name, heq ▸ hr⟩
    · exact Or.inr ⟨name, (ConservationInv.mem_log_write heq).mpr (Or.inl hr)⟩
    · by_cases hname : name = cf
      · subst hname
        exact Or.inl (htable (hinv.committed name hcf r hr))
      · right
        refine ⟨name, ?_⟩
        rwa [heq, Function.update_of_ne hname]

/-- Every other record is one that the step appends, with a number of its own. -/
lemma present_of_step (hinv : ConservationInv p) (h : PipelineStep p e p') (hr : Present p' r) :
    Present p r ∨ ∃ n, p.nextId ≤ n ∧ n < p'.nextId ∧ r.id = .appended n := by
  rcases hr with hr | ⟨name, hr⟩
  · rcases table_cases h with heq | ⟨batch, hcommitting, heq⟩
    · exact Or.inl (Or.inl (heq ▸ hr))
    · left
      rw [heq, List.mem_append] at hr
      refine hr.imp_right (fun hrow => ?_)
      obtain ⟨q, hq, hrow⟩ := List.mem_flatMap.mp hrow
      have hrequest : q ∈ p.requests := by
        rw [Pipeline.requests, hcommitting]
        exact Multiset.mem_add.mpr (Or.inr hq)
      exact ⟨q.cf, hinv.requests q hrequest ▸ hrow⟩
  · rcases log_cases h with heq | ⟨cf, values, rfl, -, -, heq⟩ | ⟨cf, -, heq⟩
    · exact Or.inl (Or.inr ⟨name, heq ▸ hr⟩)
    · rcases (ConservationInv.mem_log_write heq).mp hr with hold | ⟨-, hnew⟩
      · exact Or.inl (Or.inr ⟨name, hold⟩)
      · right
        cases h
        exact id_newRecords hnew
    · left
      rw [heq] at hr
      by_cases hname : name = cf
      · subst hname
        rw [Function.update_self] at hr
        cases hr
      · rw [Function.update_of_ne hname] at hr
        exact Or.inr ⟨name, hr⟩

lemma present_of_acked_step (h : PipelineStep p e p') (hr : r ∈ p'.acked) : r ∈ p.acked ∨ Present p' r := by
  rcases acked_cases h with heq | ⟨cf, values, rfl, hlookup, heq⟩
  · exact Or.inl (heq ▸ hr)
  · rw [heq, List.mem_append] at hr
    refine hr.imp_right (fun hnew => Or.inr ⟨cf, ?_⟩)
    cases h
    exact (ConservationInv.mem_log_write (ConservationInv.log_write rfl hlookup)).mpr (Or.inr ⟨rfl, hnew⟩)

/-- The engine writes to column families that `new` recognises. -/
structure EngineNames (p : Pipeline) : Prop where
  active : IsEngineCf p.store.activeCf
  appends : ∀ name values, (name, values) ∈ p.appends → IsEngineCf name
  logs : ∀ name, p.log name ≠ [] → IsEngineCf name

lemma activeCf_cases (h : PipelineStep p e p') :
    p'.store.activeCf = p.store.activeCf ∨ ∃ ts, e = .rotate ts ∧ p'.store.activeCf = rotatedCf ts := by
  cases h with
  | rotate ts hcycle hfresh => exact Or.inr ⟨ts, rfl, rfl⟩
  | _ => exact Or.inl rfl

lemma appends_cases (h : PipelineStep p e p') :
    p'.appends ≤ p.appends ∨ ∃ values, p'.appends = (p.store.activeCf, values) ::ₘ p.appends := by
  cases h with
  | clone hvalues => exact Or.inr ⟨_, rfl⟩
  | write hcall hlookup =>
    left
    rw [hcall]
    exact Multiset.le_cons_self _ _
  | writeMissing hcall hlookup =>
    left
    rw [hcall]
    exact Multiset.le_cons_self _ _
  | _ => exact Or.inl le_rfl

theorem EngineNames.step (hnames : EngineNames p) (hclock : e.ClockInRange) (h : PipelineStep p e p') :
    EngineNames p' := by
  constructor
  case active =>
    rcases activeCf_cases h with heq | ⟨ts, rfl, heq⟩
    · rw [heq]
      exact hnames.active
    · rw [heq]
      exact isEngineCf_rotatedCf hclock
  case appends =>
    intro name values hmem
    rcases appends_cases h with hle | ⟨values', heq⟩
    · exact hnames.appends name values (Multiset.mem_of_le hle hmem)
    · rw [heq, Multiset.mem_cons] at hmem
      rcases hmem with hcall | hold
      · have hactive : name = p.store.activeCf := congrArg Prod.fst hcall
        rw [hactive]
        exact hnames.active
      · exact hnames.appends name values hold
  case logs =>
    intro name hname
    rcases log_cases h with heq | ⟨cf, values, -, -, hcall, heq⟩ | ⟨cf, -, heq⟩
    · exact hnames.logs name (heq ▸ hname)
    · by_cases hcf : name = cf
      · rw [hcf]
        exact hnames.appends cf values hcall
      · rw [heq, Function.update_of_ne hcf] at hname
        exact hnames.logs name hname
    · rw [heq] at hname
      by_cases hcf : name = cf
      · subst hcf
        rw [Function.update_self] at hname
        exact absurd rfl hname
      · rw [Function.update_of_ne hcf] at hname
        exact hnames.logs name hname

/-- A process may lose calls, cycles and tasks. -/
structure Shrunk (p p' : Pipeline) : Prop where
  store : p'.store = p.store
  table : p'.table = p.table
  acked : p'.acked = p.acked
  committer : p'.committer = p.committer
  appends : p'.appends ≤ p.appends
  requests : p'.requests ≤ p.requests
  tracked : trackedCfs p' ≤ trackedCfs p
  nextId : p.nextId ≤ p'.nextId

lemma Shrunk.log (hshrunk : Shrunk p p') : p'.log = p.log := by
  unfold Pipeline.log
  rw [hshrunk.store]

lemma Shrunk.present_iff (hshrunk : Shrunk p p') : Present p' r ↔ Present p r := by
  rw [Present, Present, hshrunk.table, hshrunk.log]

lemma Shrunk.own (hshrunk : Shrunk p p') (hown : OwnershipInv p) : OwnershipInv p' where
  nodup := Multiset.nodup_of_le hshrunk.tracked hown.nodup
  exist name hname := by
    rw [hshrunk.store]
    exact hown.exist name (Multiset.mem_of_le hshrunk.tracked hname)

lemma Shrunk.conserved (hshrunk : Shrunk p p') (hinv : ConservationInv p) : ConservationInv p' where
  requests q hq := by
    rw [hshrunk.log]
    exact hinv.requests q (Multiset.mem_of_le hshrunk.requests hq)
  log_nodup := hshrunk.log ▸ hinv.log_nodup
  log_unique := hshrunk.log ▸ hinv.log_unique
  table_nodup := hshrunk.table ▸ hinv.table_nodup
  uncommitted name hname hkept r hr := by
    rw [hshrunk.log] at hr
    rw [hshrunk.committer] at hkept
    rw [hshrunk.table]
    exact hinv.uncommitted name (Multiset.mem_of_le hshrunk.tracked hname) hkept r hr
  committed := by
    rw [hshrunk.committer, hshrunk.log, hshrunk.table]
    exact hinv.committed
  acked := by
    rw [hshrunk.log, hshrunk.table, hshrunk.acked]
    exact hinv.acked
  numbered r k hr hid := by
    rw [hshrunk.log, hshrunk.table] at hr
    exact (hinv.numbered r k hr hid).trans_le hshrunk.nextId

/-- The keys of all column families are below the number of keys allotted so far. -/
def StoredKeysBelow (db : Db) (bound : ℕ) : Prop := ∀ name cf, db.lookup name = some cf → KeysBelow cf bound

lemma StoredKeysBelow.mono {db : Db} {a b : ℕ} (h : StoredKeysBelow db a) (hab : a ≤ b) : StoredKeysBelow db b :=
  fun name cf hcf => (h name cf hcf).mono hab

lemma StoredKeysBelow.insert {db : Db} {bound : ℕ} (h : StoredKeysBelow db bound) {name : String} {cf : ColumnFamily}
    (hcf : KeysBelow cf bound) : StoredKeysBelow (db.insert name cf) bound := by
  intro other c hc
  by_cases hother : other = name
  · subst hother
    rw [AList.lookup_insert, Option.some.injEq] at hc
    exact hc ▸ hcf
  · rw [AList.lookup_insert_ne hother] at hc
    exact h other c hc

lemma StoredKeysBelow.erase {db : Db} {bound : ℕ} (h : StoredKeysBelow db bound) (name : String) :
    StoredKeysBelow (db.erase name) bound := by
  intro other c hc
  by_cases hother : other = name
  · subst hother
    rw [AList.lookup_erase] at hc
    cases hc
  · rw [AList.lookup_erase_ne hother] at hc
    exact h other c hc

lemma storedKeysBelow_write (hrep : Represents s p) {cf : String} {values : List Bytes}
    (hcall : (cf, values) ∈ p.appends) (hbelow : StoredKeysBelow s.db (p.nextId + 1))
    (hcounter : s.counter ≤ p.nextId + 1) (hroom : p.nextId + values.length + 1 < 2 ^ 64) :
    StoredKeysBelow (s.writeBatch cf values true).2.db (p.nextId + values.length + 1) := by
  have hold := hbelow.mono (Nat.add_le_add_right (Nat.le_add_right p.nextId values.length) 1)
  cases hc : s.db.lookup cf with
  | none =>
    rw [writeBatch_missing (AList.lookup_eq_none.mp hc)]
    exact hold
  | some c =>
    obtain ⟨full, s', hs', hwrote⟩ := writeBatch_ok hc values
    have hspace : s.counter + values.length < 2 ^ 64 := by omega
    obtain ⟨-, hbatch⟩ := foldl_putCf values ⟨s.counter, 0, []⟩ hspace
    rw [hs', hwrote.db, hbatch, List.nil_append, Db.writeCf]
    refine hold.insert ((insertMany_allot ?_ hspace).2.mono (by omega))
    exact hrep.keys cf c (Or.inr ⟨values, hcall⟩) hc

/-- A step moves the bound on the keys by the number of keys that it allots. -/
lemma storedKeysBelow_step (hrep : Represents s p) (draw : ℕ → ℕ) (h : PipelineStep p e p')
    (hbelow : StoredKeysBelow s.db (p.nextId + 1)) (hcounter : s.counter ≤ p.nextId + 1)
    (hroom : p'.nextId + 1 < 2 ^ 64) : StoredKeysBelow (storeCall draw s e).db (p'.nextId + 1) := by
  cases h with
  | @write cf values rest hcall hlookup =>
    refine storedKeysBelow_write hrep ?_ hbelow hcounter hroom
    rw [hcall]
    exact Multiset.mem_cons_self _ _
  | @writeMissing cf values rest hcall hlookup =>
    have habsent : cf ∉ s.db := fun hmem => hrep.mem_db.mp hmem hlookup
    rw [storeCall, writeBatch_missing habsent]
    exact hbelow
  | rotate ts hcycle hfresh =>
    have habsent : rotatedCf ts ∉ s.db := fun hmem => hrep.mem_db.mp hmem hfresh
    obtain ⟨s', hs', hrotated⟩ := rotate_ok habsent (draw ts)
    rw [storeCall, hs', hrotated.db]
    exact hbelow.insert (keysBelow_empty _)
  | @dropped cf cfs hdropping hexists =>
    rw [storeCall]
    rcases dropFrozenCf_cases s cf true with herr | ⟨s', hs', hdropped⟩
    · rw [herr]
      exact hbelow
    · rw [hs', hdropped.db]
      exact hbelow.erase cf
  | dropFailed hdropping => exact hbelow
  | _ => exact hbelow

/-- An open without a read error starts the counter above the active column family. -/
lemma counter_of_opened {disk : Option Db} {env : OpenEnv} {flushSizeBytes flushSizeJitterBytes bound : ℕ}
    (hnew : RocksStore.new disk env flushSizeBytes flushSizeJitterBytes = .ok s) (hread : env.readOk = true)
    (hbelow : StoredKeysBelow s.db (bound + 1)) (hroom : bound + 1 < 2 ^ 64) :
    s.counter ≤ bound + 1 ∧ ∀ cf, s.db.lookup s.activeCf = some cf → KeysBelow cf s.counter := by
  obtain ⟨-, -, -, hcounter, -⟩ := new_ok hnew
  rw [hread] at hcounter
  cases hcf : s.db.lookup s.activeCf with
  | none =>
    have hzero : RocksStore.maxKey s.db s.activeCf true = 0 := by
      simp only [RocksStore.maxKey, Db.cfHandle, hcf]
    rw [hcounter, hzero]
    refine ⟨by simp [u64], ?_⟩
    rintro _ ⟨⟩
  | some cf =>
    obtain ⟨hmax, habove⟩ := maxKey_above hcf (hbelow _ cf hcf) (by omega)
    have hwrap : u64 (RocksStore.maxKey s.db s.activeCf true + 1) = RocksStore.maxKey s.db s.activeCf true + 1 :=
      Nat.mod_eq_of_lt (by omega)
    rw [hcounter, hwrap]
    refine ⟨by omega, ?_⟩
    rintro _ ⟨⟩
    exact habove

/-! ### The invariant -/

/-- What holds while a process runs. A record that an earlier process committed and this one found
again is counted in `refound`. -/
structure UpInv (pod : Pod) (s : RocksStore) (p : Pipeline) : Prop where
  own : OwnershipInv p
  conserved : ConservationInv p
  represents : Represents s p
  names : EngineNames p
  keys : StoredKeysBelow s.db (p.nextId + 1)
  counter : s.counter ≤ p.nextId + 1
  numbered : ∀ r ∈ pod.earlierCommitted, ∀ k, r.id = .appended k → k < p.nextId
  copies : ∀ r, pod.earlierCommitted.count r ≤ pod.refound.count r + 1
  present : ∀ r, Present p r → pod.earlierCommitted.count r ≤ pod.refound.count r
  acked : ∀ r ∈ pod.earlierAcked ++ p.acked, r ∈ pod.earlierCommitted ∨ Present p r

/-- What a process leaves and the next one starts from. -/
structure DownInv (pod : Pod) (disk : Option Db) (records : String → List Record) : Prop where
  contents : ∀ name, ((disk.getD ∅).logs name).getD [] = (records name).map Record.value
  names : ∀ name, records name ≠ [] → IsEngineCf name
  keys : StoredKeysBelow (disk.getD ∅) (pod.earlierIds + 1)
  log_nodup : ∀ name, (records name).Nodup
  log_unique : ∀ m n r, r ∈ records m → r ∈ records n → m = n
  numbered : ∀ r k, (r ∈ pod.earlierCommitted ∨ ∃ name, r ∈ records name) → r.id = .appended k → k < pod.earlierIds
  copies : ∀ r, pod.earlierCommitted.count r ≤ pod.refound.count r + 1
  acked : ∀ r ∈ pod.earlierAcked, r ∈ pod.earlierCommitted ∨ ∃ name, r ∈ records name

def PodInv (pod : Pod) : Prop :=
  match pod.phase with
  | .down disk records => DownInv pod disk records
  | .up s p => UpInv pod s p

variable {pod : Pod}

lemma PodInv.up (hinv : PodInv pod) (hup : pod.phase = .up s p) : UpInv pod s p := by
  rwa [PodInv, hup] at hinv

lemma PodInv.down {disk : Option Db} {records : String → List Record} (hinv : PodInv pod)
    (hdown : pod.phase = .down disk records) : DownInv pod disk records := by
  rwa [PodInv, hdown] at hinv

namespace UpInv

theorem step (hinv : UpInv pod s p) (draw : ℕ → ℕ) (hclock : e.ClockInRange) (hlate : NoLateWrite p e)
    (h : PipelineStep p e p') (hroom : p'.nextId + 1 < 2 ^ 64) : UpInv pod (storeCall draw s e) p' := by
  have hnext := nextId_le_of_step p e p' h
  have hcount := hinv.counter
  obtain ⟨hrep, hcounter⟩ := hinv.represents.step draw h (by omega)
  constructor
  case own => exact hinv.own.step h
  case conserved => exact hinv.conserved.step hinv.own hlate h
  case represents => exact hrep
  case names => exact hinv.names.step hclock h
  case keys => exact storedKeysBelow_step hinv.represents draw h hinv.keys hinv.counter hroom
  case counter => omega
  case numbered => exact fun r hr k hk => (hinv.numbered r hr k hk).trans_le hnext
  case copies => exact hinv.copies
  case present =>
    intro r hr
    rcases present_of_step hinv.conserved h hr with hold | ⟨n, hlo, -, hid⟩
    · exact hinv.present r hold
    · have hnew : r ∉ pod.earlierCommitted := by
        intro hmem
        have hlt := hinv.numbered r hmem n hid
        omega
      rw [List.count_eq_zero_of_not_mem hnew]
      exact Nat.zero_le _
  case acked =>
    intro r hr
    have hcases : r ∈ pod.earlierAcked ++ p.acked ∨ Present p' r := by
      rcases List.mem_append.mp hr with hold | hr
      · exact Or.inl (List.mem_append_left _ hold)
      · exact (present_of_acked_step h hr).imp_left (List.mem_append_right _)
    rcases hcases with hold | hnew
    · exact (hinv.acked r hold).imp_right (present_step hinv.conserved h)
    · exact Or.inr hnew

theorem shrink {s' : RocksStore} (hinv : UpInv pod s p) (hshrunk : Shrunk p p') (hdb : s'.db = s.db)
    (hlogs : s'.toLogStore = s.toLogStore) (hlo : s.counter ≤ s'.counter) (hhi : s'.counter ≤ p'.nextId + 1) :
    UpInv pod s' p' := by
  constructor
  case own => exact hshrunk.own hinv.own
  case conserved => exact hshrunk.conserved hinv.conserved
  case represents =>
    refine ⟨?_, fun name cf hname hcf => ?_, fun hmem => ?_⟩
    · rw [hlogs, hshrunk.store]
      exact hinv.represents.store
    · rw [hshrunk.store] at hname
      rw [hdb] at hcf
      refine (hinv.represents.keys name cf ?_ hcf).mono hlo
      exact hname.imp_right (fun hcall => hcall.imp (fun values => Multiset.mem_of_le hshrunk.appends))
    · exact hinv.represents.tracked (Multiset.mem_of_le hshrunk.tracked hmem)
  case names =>
    refine ⟨?_, fun name values hmem => ?_, ?_⟩
    · rw [hshrunk.store]
      exact hinv.names.active
    · exact hinv.names.appends name values (Multiset.mem_of_le hshrunk.appends hmem)
    · rw [hshrunk.log]
      exact hinv.names.logs
  case keys =>
    rw [hdb]
    exact hinv.keys.mono (Nat.add_le_add_right hshrunk.nextId 1)
  case counter => exact hhi
  case numbered => exact fun r hr k hk => (hinv.numbered r hr k hk).trans_le hshrunk.nextId
  case copies => exact hinv.copies
  case present => exact fun r hr => hinv.present r (hshrunk.present_iff.mp hr)
  case acked =>
    intro r hr
    rw [hshrunk.acked] at hr
    exact (hinv.acked r hr).imp_right hshrunk.present_iff.mpr

end UpInv

end MicewriterEngine.Proofs
