import MicewriterEngine.Lib.Numbered
import MicewriterEngine.Model.ConcurrentAppends
import MicewriterEngine.Proofs.PipelineStore

/-!
# Concurrent appends are linearizable

The draws from the key counter order all values of all calls. Whatever the order in which
the batches are written, a column family holds the values of its calls in this order, which
is the order of the calls in each stream and of calls that do not overlap.
-/

namespace MicewriterEngine.Proofs
open Lib

variable {ι : Type} [DecidableEq ι] {a b : Appends ι} {e : AppendEvent ι} {first : ℕ}

/-- The values of a call whose key has been drawn. -/
def drawnBy (a : Appends ι) (call : CallId ι) : List Bytes :=
  (a.drawn.filter (fun x => x.1 = call)).map Prod.snd

/-- The contents of each column family are what was found in it and the batches that it holds,
in the order of their keys. -/
structure AppendsInv (first : ℕ) (a : Appends ι) : Prop where
  counter : a.counter = first + a.drawn.length
  found : ∀ name, (name = a.activeCf ∨ ∃ i, (a.calls i).cf = some name) →
    ∀ x ∈ a.found name, ∃ id < first, x.1 = beBytes 8 id
  contents : ∀ name c, a.db.lookup name = some c →
    c.entries = a.found name ++ entriesOf (beBytes 8) first (fun call => call ∈ a.holds name) a.drawn
  batch : ∀ i cf values batchBytes batch rest, a.calls i = .allotting cf values batchBytes batch rest →
    batch = entriesOf (beBytes 8) first (fun call => call = a.callId i) a.drawn ∧
      values = batch.map Prod.snd ++ rest
  begun : ∀ x ∈ a.drawn, x.1.2 < (a.finished x.1.1).length ∨
    x.1 = a.callId x.1.1 ∧ (a.calls x.1.1).HasReadLock
  streams : ∀ i, (a.drawn.filter (fun x => x.1.1 = i)).Pairwise (fun x y => x.1.2 ≤ y.1.2)
  finished : ∀ i n values, (a.finished i)[n]? = some (values, true) → drawnBy a (i, n) = values
  holds : ∀ name call, call ∈ a.holds name → ∃ values, (a.finished call.1)[call.2]? = some (values, true)

lemma increasingKeys {n length : ℕ} (h : n + length ≤ 2 ^ 64) : IncreasingKeys (beBytes 8) n length :=
  fun _ _ _ hij hj => beBytes_eight_lt (by omega) hij

namespace AppendsInv

lemma start {s : RocksStore} (hkeys : ∀ cf, s.db.lookup s.activeCf = some cf → KeysBelow cf s.counter) :
    AppendsInv s.counter (.start ι s) := by
  constructor
  case counter => rfl
  case found =>
    rintro name (rfl | ⟨i, hi⟩) x hx
    · simp only [Appends.start] at hx
      cases hcf : s.db.lookup s.activeCf with
      | none =>
        rw [hcf] at hx
        cases hx
      | some cf =>
        rw [hcf] at hx
        exact hkeys cf hcf x.1 (List.mem_map_of_mem hx)
    · cases hi
  case contents =>
    intro name c hc
    have hfound : (Appends.start ι s).found name = c.entries := by
      have hlookup : s.db.lookup name = some c := hc
      simp only [Appends.start, hlookup, Option.map_some, Option.getD_some]
    rw [hfound]
    exact (List.append_nil _).symm
  case batch => exact fun _ _ _ _ _ _ hcall => nomatch hcall
  case begun => exact fun x hx => absurd hx List.not_mem_nil
  case streams => exact fun _ => List.Pairwise.nil
  case finished => exact fun _ _ _ h => nomatch h
  case holds => exact fun _ _ h => absurd h List.not_mem_nil

lemma callId_notMem_holds (hinv : AppendsInv first a) (name : String) (i : ι) : a.callId i ∉ a.holds name := by
  intro hmem
  obtain ⟨values, hvalues⟩ := hinv.holds name _ hmem
  exact lt_irrefl _ (List.getElem?_eq_some_iff.mp hvalues).1

/-- A call goes on without a draw. -/
lemma setCall (hinv : AppendsInv first a) {i : ι} {call : AppendCall}
    (hcf : ∀ name, call.cf = some name → name = a.activeCf ∨ (a.calls i).cf = some name)
    (hbatch : ∀ cf values batchBytes batch rest, call = .allotting cf values batchBytes batch rest →
      batch = entriesOf (beBytes 8) first (fun call => call = a.callId i) a.drawn ∧ values = batch.map Prod.snd ++ rest)
    (hlock : (a.calls i).HasReadLock → call.HasReadLock) :
    AppendsInv first { a with calls := Function.update a.calls i call } := by
  constructor
  case counter => exact hinv.counter
  case found =>
    rintro name (hactive | ⟨j, hj⟩)
    · exact hinv.found name (Or.inl hactive)
    · by_cases hji : j = i
      · subst hji
        simp only [Function.update_self] at hj
        exact hinv.found name ((hcf name hj).imp_right (fun hold => ⟨j, hold⟩))
      · simp only [Function.update_of_ne hji] at hj
        exact hinv.found name (Or.inr ⟨j, hj⟩)
  case contents => exact hinv.contents
  case batch =>
    intro j cf values batchBytes batch rest hj
    by_cases hji : j = i
    · subst hji
      simp only [Function.update_self] at hj
      exact hbatch cf values batchBytes batch rest hj
    · simp only [Function.update_of_ne hji] at hj
      exact hinv.batch j cf values batchBytes batch rest hj
  case begun =>
    intro x hx
    refine (hinv.begun x hx).imp_right (fun ⟨htag, hold⟩ => ⟨htag, ?_⟩)
    by_cases hxi : x.1.1 = i
    · subst hxi
      simp only [Function.update_self]
      exact hlock hold
    · simp only [Function.update_of_ne hxi]
      exact hold
  case streams => exact hinv.streams
  case finished => exact hinv.finished
  case holds => exact hinv.holds

lemma getElem?_finish {i j : ι} {n : ℕ} {values : List Bytes} {ok : Bool} {f : List Bytes × Bool}
    (h : (a.finished j)[n]? = some f) : ((a.finish i values ok).finished j)[n]? = some f := by
  by_cases hji : j = i
  · subst hji
    have hlt := (List.getElem?_eq_some_iff.mp h).1
    simp only [Appends.finish, Function.update_self]
    rw [List.getElem?_append_left hlt, h]
  · simp only [Appends.finish, Function.update_of_ne hji]
    exact h

/-- A call returns. -/
lemma finish (hinv : AppendsInv first a) {i : ι} {values : List Bytes} {ok : Bool}
    (hok : ok = true → drawnBy a (a.callId i) = values) : AppendsInv first (a.finish i values ok) := by
  constructor
  case counter => exact hinv.counter
  case found =>
    rintro name (hactive | ⟨j, hj⟩)
    · exact hinv.found name (Or.inl hactive)
    · by_cases hji : j = i
      · subst hji
        simp only [Appends.finish, Function.update_self] at hj
        cases hj
      · simp only [Appends.finish, Function.update_of_ne hji] at hj
        exact hinv.found name (Or.inr ⟨j, hj⟩)
  case contents => exact hinv.contents
  case batch =>
    intro j cf values' batchBytes batch rest hj
    by_cases hji : j = i
    · subst hji
      simp only [Appends.finish, Function.update_self] at hj
      cases hj
    · have hid : (a.finish i values ok).callId j = a.callId j := by
        simp only [Appends.callId, Appends.finish, Function.update_of_ne hji]
      simp only [Appends.finish, Function.update_of_ne hji] at hj
      simp only [hid]
      exact hinv.batch j cf values' batchBytes batch rest hj
  case begun =>
    intro x hx
    by_cases hxi : x.1.1 = i
    · left
      simp only [Appends.finish, hxi, Function.update_self, List.length_append, List.length_singleton]
      rcases hinv.begun x hx with hlt | ⟨htag, -⟩
      · rw [hxi] at hlt
        omega
      · have hn : x.1.2 = (a.finished i).length := by
          rw [htag, hxi]
          rfl
        omega
    · simp only [Appends.callId, Appends.finish, Function.update_of_ne hxi]
      exact hinv.begun x hx
  case streams => exact hinv.streams
  case finished =>
    intro j n values' hvalues
    by_cases hji : j = i
    · subst hji
      simp only [Appends.finish, Function.update_self] at hvalues
      rcases lt_or_ge n (a.finished j).length with hlt | hge
      · rw [List.getElem?_append_left hlt] at hvalues
        exact hinv.finished j n values' hvalues
      · rw [List.getElem?_append_right hge, List.getElem?_singleton] at hvalues
        split at hvalues
        · rename_i hn
          cases hvalues
          have hlen : n = (a.finished j).length := by omega
          subst hlen
          exact hok rfl
        · cases hvalues
    · simp only [Appends.finish, Function.update_of_ne hji] at hvalues
      exact hinv.finished j n values' hvalues
  case holds =>
    intro name call hcall
    obtain ⟨values', hvalues⟩ := hinv.holds name call hcall
    exact ⟨values', getElem?_finish hvalues⟩

/-- The batch of a call that returned lands in its column family, in the order of the keys. -/
lemma land (hinv : AppendsInv first a) {name : String} {c : ColumnFamily} {call : CallId ι}
    {batch : List (Bytes × Bytes)} (hc : a.db.lookup name = some c)
    (hfound : ∀ x ∈ a.found name, ∃ id < first, x.1 = beBytes 8 id)
    (hbatch : batch = entriesOf (beBytes 8) first (fun other => other = call) a.drawn)
    (hnew : call ∉ a.holds name) (hfinished : ∃ values, (a.finished call.1)[call.2]? = some (values, true))
    (hroom : first + a.drawn.length ≤ 2 ^ 64) :
    AppendsInv first
      { a with db := a.db.writeCf name c batch, holds := Function.update a.holds name (a.holds name ++ [call]) } := by
  constructor
  case counter => exact hinv.counter
  case found => exact hinv.found
  case contents =>
    intro other c' hc'
    by_cases hother : other = name
    · subst hother
      simp only [Db.writeCf, AList.lookup_insert, Option.some.injEq] at hc'
      have hbelow : ∀ x ∈ a.found other, ∀ k, first ≤ k → k < first + a.drawn.length → x.1 < beBytes 8 k := by
        intro x hx k hlo hhi
        obtain ⟨id, hid, heq⟩ := hfound x hx
        rw [heq]
        exact beBytes_eight_lt (by omega) (by omega)
      have hland := SortedMap.entries_insertMany_entriesOf (hinv.contents other c hc) (increasingKeys hroom) hbelow
        (fun t ht (heq : t = call) => hnew (heq ▸ ht))
      rw [← hc', hbatch, hland]
      congr 1
      refine entriesOf_congr (fun x _ => ?_)
      simp only [Function.update_self, List.mem_append, List.mem_singleton]
    · simp only [Db.writeCf, AList.lookup_insert_ne hother] at hc'
      rw [hinv.contents other c' hc']
      congr 1
      refine entriesOf_congr (fun x _ => ?_)
      simp only [Function.update_of_ne hother]
  case batch => exact hinv.batch
  case begun => exact hinv.begun
  case streams => exact hinv.streams
  case finished => exact hinv.finished
  case holds =>
    intro other call' hmem
    by_cases hother : other = name
    · subst hother
      simp only [Function.update_self, List.mem_append, List.mem_singleton] at hmem
      rcases hmem with hold | rfl
      · exact hinv.holds other call' hold
      · exact hfinished
    · simp only [Function.update_of_ne hother] at hmem
      exact hinv.holds other call' hmem

lemma fetchAdd (hinv : AppendsInv first a) {i : ι} {cf : String} {values : List Bytes} {batchBytes : ℕ}
    {batch : List (Bytes × Bytes)} {v : Bytes} {rest : List Bytes}
    (hcall : a.calls i = .allotting cf values batchBytes batch (v :: rest))
    (hroom : first + a.drawn.length + 1 < 2 ^ 64) :
    AppendsInv first
      { a with
        counter := (BatchLoop.putCf ⟨a.counter, batchBytes, batch⟩ v).counter
        calls := Function.update a.calls i
          (.allotting cf values (BatchLoop.putCf ⟨a.counter, batchBytes, batch⟩ v).batchBytes
            (BatchLoop.putCf ⟨a.counter, batchBytes, batch⟩ v).batch rest)
        drawn := a.drawn ++ [(a.callId i, v)] } := by
  obtain ⟨hbatch, hvalues⟩ := hinv.batch i cf values batchBytes batch (v :: rest) hcall
  have hcounter := hinv.counter
  have hnext : u64 (a.counter + 1) = a.counter + 1 := Nat.mod_eq_of_lt (by omega)
  have hsnoc : ∀ (chosen : CallId ι → Prop) [DecidablePred chosen],
      entriesOf (beBytes 8) first chosen (a.drawn ++ [(a.callId i, v)]) =
        entriesOf (beBytes 8) first chosen a.drawn ++
          if chosen (a.callId i) then [(beBytes 8 a.counter, v)] else [] := by
    intro chosen _
    rw [entriesOf_append, ← hcounter]
    congr 1
    by_cases hchosen : chosen (a.callId i)
    · simp [entriesOf, numbered, hchosen]
    · simp [entriesOf, numbered, hchosen]
  constructor
  case counter =>
    simp only [BatchLoop.putCf, hnext, List.length_append, List.length_singleton]
    omega
  case found =>
    rintro name (hactive | ⟨j, hj⟩)
    · exact hinv.found name (Or.inl hactive)
    · by_cases hji : j = i
      · subst hji
        simp only [Function.update_self, AppendCall.cf] at hj
        exact hinv.found name (Or.inr ⟨j, by rw [hcall]; exact hj⟩)
      · simp only [Function.update_of_ne hji] at hj
        exact hinv.found name (Or.inr ⟨j, hj⟩)
  case contents =>
    intro name c hc
    rw [hinv.contents name c hc]
    dsimp only
    rw [hsnoc, if_neg (hinv.callId_notMem_holds name i), List.append_nil]
  case batch =>
    intro j cf' values' batchBytes' batch' rest' hj
    by_cases hji : j = i
    · subst hji
      simp only [Function.update_self, AppendCall.allotting.injEq] at hj
      obtain ⟨-, rfl, -, rfl, rfl⟩ := hj
      have hid : Appends.callId a j = a.callId j := rfl
      refine ⟨?_, ?_⟩
      · refine Eq.trans ?_ (hsnoc (fun call => call = a.callId j)).symm
        rw [if_pos rfl, BatchLoop.putCf, hbatch]
      · rw [hvalues]
        simp only [BatchLoop.putCf, List.map_append, List.map_cons, List.map_nil, List.append_assoc,
          List.singleton_append]
    · simp only [Function.update_of_ne hji] at hj
      have hne : a.callId i ≠ a.callId j := fun heq => hji (congrArg Prod.fst heq).symm
      obtain ⟨hold, hrest⟩ := hinv.batch j cf' values' batchBytes' batch' rest' hj
      refine ⟨?_, hrest⟩
      refine hold.trans (Eq.trans ?_ (hsnoc (fun call => call = a.callId j)).symm)
      rw [if_neg hne, List.append_nil]
  case begun =>
    intro x hx
    have hlock : ∀ j, (a.calls j).HasReadLock →
        (Function.update a.calls i (.allotting cf values (BatchLoop.putCf ⟨a.counter, batchBytes, batch⟩ v).batchBytes
          (BatchLoop.putCf ⟨a.counter, batchBytes, batch⟩ v).batch rest) j).HasReadLock := by
      intro j hj
      by_cases hji : j = i
      · subst hji
        rw [Function.update_self]
        trivial
      · rwa [Function.update_of_ne hji]
    rcases List.mem_append.mp hx with hold | hnew
    · exact (hinv.begun x hold).imp_right (And.imp_right (hlock _))
    · rw [List.mem_singleton.mp hnew]
      refine Or.inr ⟨rfl, hlock i ?_⟩
      rw [hcall]
      trivial
  case streams =>
    intro j
    rw [List.filter_append]
    by_cases hji : i = j
    · subst hji
      have hself : [(a.callId i, v)].filter (fun x => x.1.1 = i) = [(a.callId i, v)] := by
        simp [Appends.callId]
      rw [hself]
      refine List.pairwise_append.mpr ⟨hinv.streams i, List.pairwise_singleton _ _, ?_⟩
      intro x hx y hy
      obtain ⟨hmem, hi⟩ := List.mem_filter.mp hx
      have hstream : x.1.1 = i := of_decide_eq_true hi
      rw [List.mem_singleton.mp hy]
      change x.1.2 ≤ (a.finished i).length
      rcases hinv.begun x hmem with hlt | ⟨htag, -⟩
      · rw [hstream] at hlt
        exact hlt.le
      · rw [htag, hstream]
        exact le_rfl
    · have hnil : [(a.callId i, v)].filter (fun x => x.1.1 = j) = [] := by
        simpa [Appends.callId] using hji
      rw [hnil, List.append_nil]
      exact hinv.streams j
  case finished =>
    intro j n values' hn
    have hne : a.callId i ≠ (j, n) := by
      intro heq
      have hi : i = j := congrArg Prod.fst heq
      have hlen : (a.finished i).length = n := congrArg Prod.snd heq
      have hlt := (List.getElem?_eq_some_iff.mp hn).1
      dsimp only at hlt
      rw [← hi] at hlt
      omega
    have hnil : [(a.callId i, v)].filter (fun x => x.1 = (j, n)) = [] := by
      simpa using hne
    rw [drawnBy, List.filter_append, hnil, List.append_nil]
    exact hinv.finished j n values' hn
  case holds => exact hinv.holds

lemma rotate (hinv : AppendsInv first a) {ts : ℕ} {db : Db} (hcreate : a.db.createCf (rotatedCf ts) = some db) :
    AppendsInv first
      { a with
        db := db
        activeCf := rotatedCf ts
        found := Function.update a.found (rotatedCf ts) []
        holds := Function.update a.holds (rotatedCf ts) [] } := by
  have hdb : db = a.db.insert (rotatedCf ts) SortedMap.empty := by
    rw [Db.createCf] at hcreate
    split at hcreate
    · cases hcreate
    · exact (Option.some.inj hcreate).symm
  constructor
  case counter => exact hinv.counter
  case found =>
    intro name hname x hx
    by_cases hnew : name = rotatedCf ts
    · subst hnew
      simp only [Function.update_self] at hx
      cases hx
    · simp only [Function.update_of_ne hnew] at hx
      exact hinv.found name (Or.inr (hname.resolve_left hnew)) x hx
  case contents =>
    intro name c hc
    rw [hdb] at hc
    by_cases hnew : name = rotatedCf ts
    · subst hnew
      rw [AList.lookup_insert, Option.some.injEq] at hc
      subst hc
      simp only [Function.update_self]
      exact (entriesOf_eq_nil (fun x _ => by simp)).symm
    · rw [AList.lookup_insert_ne hnew] at hc
      rw [hinv.contents name c hc]
      dsimp only
      rw [Function.update_of_ne hnew]
      congr 1
      refine entriesOf_congr (fun x _ => ?_)
      rw [Function.update_of_ne hnew]
  case batch => exact hinv.batch
  case begun => exact hinv.begun
  case streams => exact hinv.streams
  case finished => exact hinv.finished
  case holds =>
    intro name call hmem
    by_cases hnew : name = rotatedCf ts
    · subst hnew
      simp only [Function.update_self] at hmem
      cases hmem
    · simp only [Function.update_of_ne hnew] at hmem
      exact hinv.holds name call hmem

lemma drop (hinv : AppendsInv first a) {name : String} {db : Db} (hdrop : a.db.dropCf name = some db) :
    AppendsInv first { a with db := db } := by
  have hdb : db = a.db.erase name := by
    rw [Db.dropCf] at hdrop
    split at hdrop
    · exact (Option.some.inj hdrop).symm
    · cases hdrop
  refine ⟨hinv.counter, hinv.found, ?_, hinv.batch, hinv.begun, hinv.streams, hinv.finished, hinv.holds⟩
  intro other c hc
  rw [hdb] at hc
  by_cases hother : other = name
  · subst hother
    rw [AList.lookup_erase] at hc
    cases hc
  · rw [AList.lookup_erase_ne hother] at hc
    exact hinv.contents other c hc

theorem step (hinv : AppendsInv first a) (h : AppendStep a e b) (hroom : first + b.drawn.length < 2 ^ 64) :
    AppendsInv first b := by
  cases h with
  | @clone i values hcall hvalues =>
    refine hinv.setCall ?_ (fun _ _ _ _ _ h => nomatch h) (fun hlock => ?_)
    · rintro name ⟨⟩
      exact Or.inl rfl
    · rw [hcall] at hlock
      exact hlock.elim
  | @lookup i cf values hcall hcf =>
    refine hinv.setCall ?_ ?_ (fun _ => trivial)
    · rintro name ⟨⟩
      rw [hcall]
      exact Or.inr rfl
    · rintro _ _ _ _ _ ⟨⟩
      refine ⟨(entriesOf_eq_nil (fun x hx heq => ?_)).symm, rfl⟩
      rcases hinv.begun x hx with hlt | ⟨-, hlock⟩
      · rw [heq] at hlt
        exact lt_irrefl _ hlt
      · rw [heq] at hlock
        change (a.calls i).HasReadLock at hlock
        rw [hcall] at hlock
        exact hlock
  | missing hcall hcf => exact hinv.finish (fun hok => nomatch hok)
  | fetchAdd hcall =>
    rw [List.length_append, List.length_singleton] at hroom
    exact hinv.fetchAdd hcall (by omega)
  | @write i cf values batchBytes batch c hcall hcf =>
    obtain ⟨hbatch, hvalues⟩ := hinv.batch i cf values batchBytes batch [] hcall
    have hdrawn : drawnBy a (a.callId i) = values := by
      rw [hvalues, List.append_nil, hbatch, map_snd_entriesOf]
      rfl
    have hfinished : ((a.finish i values true).finished i)[(a.finished i).length]? = some (values, true) := by
      simp [Appends.finish]
    refine (hinv.finish (fun _ => hdrawn)).land hcf ?_ hbatch (hinv.callId_notMem_holds cf i)
      ⟨values, hfinished⟩ hroom.le
    exact hinv.found cf (Or.inr ⟨i, by rw [hcall]; rfl⟩)
  | writeFailed hcall => exact hinv.finish (fun hok => nomatch hok)
  | rotate ts hlock hcreate => exact hinv.rotate hcreate
  | drop hlock hdrop => exact hinv.drop hdrop

end AppendsInv

lemma drawn_le_of_step (a : Appends ι) (e : AppendEvent ι) (b : Appends ι) (h : AppendStep a e b) :
    a.drawn.length ≤ b.drawn.length := by
  cases h with
  | fetchAdd hcall =>
    rw [List.length_append]
    exact Nat.le_add_right _ _
  | _ => exact le_rfl

theorem appends_invariant {s : RocksStore} (hkeys : ∀ cf, s.db.lookup s.activeCf = some cf → KeysBelow cf s.counter)
    {es : List (AppendEvent ι)} (hrun : Run AppendStep (.start ι s) es a)
    (hroom : s.counter + a.drawn.length < 2 ^ 64) :
    AppendsInv s.counter a := by
  refine hrun.invariant (fun a => s.counter + a.drawn.length < 2 ^ 64 → AppendsInv s.counter a) ?_
    (fun _ => AppendsInv.start hkeys) hroom
  intro a e b hinv h hroom'
  have hle := drawn_le_of_step a e b h
  exact (hinv (by omega)).step h hroom'

lemma run_fetchAdd {i : ι} {cf : String} {values : List Bytes} (rest : List Bytes) {a : Appends ι} {batchBytes : ℕ}
    {batch : List (Bytes × Bytes)} (hcall : a.calls i = .allotting cf values batchBytes batch rest) :
    ∃ b, Run AppendStep a (List.replicate rest.length (.fetchAdd i)) b ∧ b.db = a.db ∧ b.activeCf = a.activeCf ∧
      b.counter = (rest.foldl BatchLoop.putCf ⟨a.counter, batchBytes, batch⟩).counter ∧
      ∃ bytes, b.calls i =
        .allotting cf values bytes (rest.foldl BatchLoop.putCf ⟨a.counter, batchBytes, batch⟩).batch [] := by
  induction rest generalizing a batchBytes batch with
  | nil => exact ⟨a, .nil a, rfl, rfl, rfl, batchBytes, hcall⟩
  | cons v rest ih =>
    let putCf := BatchLoop.putCf ⟨a.counter, batchBytes, batch⟩ v
    let next : Appends ι :=
      { a with
        counter := putCf.counter
        calls := Function.update a.calls i (.allotting cf values putCf.batchBytes putCf.batch rest)
        drawn := a.drawn ++ [(a.callId i, v)] }
    have hstep : AppendStep a (.fetchAdd i) next := .fetchAdd hcall
    have hnext : next.calls i = .allotting cf values putCf.batchBytes putCf.batch rest :=
      Function.update_self i _ a.calls
    obtain ⟨b, hrun, hdb, hactive, hcounter, hfinal⟩ := ih hnext
    rw [List.length_cons, List.replicate_succ]
    exact ⟨b, .cons hstep hrun, hdb, hactive, hcounter, hfinal⟩

/-- A call that nothing overlaps does what `append_batch` does. -/
theorem run_append_alone {s : RocksStore} (hdb : a.db = s.db) (hcounter : a.counter = s.counter)
    (hactive : a.activeCf = s.activeCf) {i : ι} (hidle : a.calls i = .idle) {values : List Bytes}
    (hvalues : values ≠ [])
    (hmem : s.activeCf ∈ s.db) :
    ∃ b, Run AppendStep a
        (.clone i values :: .lookup i :: (List.replicate values.length (.fetchAdd i) ++ [.write i])) b ∧
      b.db = (s.appendBatch values true).2.db ∧ b.counter = (s.appendBatch values true).2.counter ∧
      b.activeCf = (s.appendBatch values true).2.activeCf := by
  obtain ⟨c, hc⟩ := Option.isSome_iff_exists.mp (AList.lookup_isSome.mpr hmem)
  have hempty : values.isEmpty = false := by
    rw [List.isEmpty_eq_false_iff]
    exact hvalues
  obtain ⟨full, s', hs', hwrote⟩ := writeBatch_ok hc values
  have happend : s.appendBatch values true = (.ok full, s') := by
    rw [RocksStore.appendBatch, hempty]
    exact hs'
  let named : Appends ι := { a with calls := Function.update a.calls i (.named a.activeCf values) }
  let locked : Appends ι :=
    { named with calls := Function.update named.calls i (.allotting a.activeCf values 0 [] values) }
  have hclone : AppendStep a (.clone i values) named := .clone hidle hvalues
  have hlookup : AppendStep named (.lookup i) locked := by
    refine .lookup (Function.update_self i _ a.calls) ?_
    change a.activeCf ∈ a.db
    rw [hactive, hdb]
    exact hmem
  have hlocked : locked.calls i = .allotting a.activeCf values 0 [] values := Function.update_self i _ named.calls
  obtain ⟨b, hrun, hbdb, hbactive, hbcounter, bytes, hfinal⟩ := run_fetchAdd values hlocked
  have hcf : b.db.lookup a.activeCf = some c := by
    rw [hbdb, hactive]
    change a.db.lookup s.activeCf = some c
    rw [hdb, hc]
  refine ⟨_, .cons hclone (.cons hlookup (hrun.snoc (.write hfinal hcf))), ?_, ?_, ?_⟩
  · rw [happend, hwrote.db]
    dsimp only
    rw [hbdb]
    change a.db.writeCf a.activeCf c (values.foldl BatchLoop.putCf ⟨a.counter, 0, []⟩).batch = _
    rw [hdb, hactive, hcounter]
  · rw [happend, hwrote.counter]
    change b.counter = _
    rw [hbcounter]
    change (values.foldl BatchLoop.putCf ⟨a.counter, 0, []⟩).counter = _
    rw [hcounter]
  · rw [happend, hwrote.activeCf]
    exact hbactive.trans hactive

/-! ### The order of the values -/

/-- The values that a column family holds from the calls, in the order of their keys. -/
def heldValues (a : Appends ι) (name : String) : List (CallId ι × Bytes) :=
  a.drawn.filter (fun x => x.1 ∈ a.holds name)

lemma values_eq_heldValues (hinv : AppendsInv first a) {name : String} {c : ColumnFamily}
    (hc : a.db.lookup name = some c) :
    c.values = (a.found name).map Prod.snd ++ (heldValues a name).map Prod.snd := by
  rw [SortedMap.values, hinv.contents name c hc, List.map_append, map_snd_entriesOf]
  rfl

lemma freshStore_keysBelow {cf : ColumnFamily} (hcf : freshStore.db.lookup freshStore.activeCf = some cf) :
    KeysBelow cf freshStore.counter := by
  have hempty : freshStore.db.lookup freshStore.activeCf = some SortedMap.empty := rfl
  rw [hempty, Option.some.injEq] at hcf
  exact hcf ▸ keysBelow_empty _

/-- Later draws are for calls that had not returned. -/
lemma later_draws {fs : List (AppendEvent ι)} (hrun : Run AppendStep a fs b) :
    ∃ l, b.drawn = a.drawn ++ l ∧ ∀ x ∈ l, (a.finished x.1.1).length ≤ x.1.2 := by
  have hlater := hrun.invariant
    (fun b => (∃ l, b.drawn = a.drawn ++ l ∧ ∀ x ∈ l, (a.finished x.1.1).length ≤ x.1.2) ∧
      ∀ i, (a.finished i).length ≤ (b.finished i).length) ?_
    ⟨⟨[], (List.append_nil _).symm, fun x hx => absurd hx List.not_mem_nil⟩, fun _ => le_rfl⟩
  · exact hlater.1
  · rintro b e b' ⟨⟨l, hl, hnew⟩, hgrown⟩ h
    have hfinish : ∀ (i : ι) (values : List Bytes) (ok : Bool) (j : ι),
        (a.finished j).length ≤ ((b.finish i values ok).finished j).length := by
      intro i values ok j
      refine (hgrown j).trans ?_
      by_cases hji : j = i
      · subst hji
        simp [Appends.finish]
      · simp [Appends.finish, Function.update_of_ne hji]
    cases h with
    | missing hcall hcf => exact ⟨⟨l, hl, hnew⟩, hfinish _ _ _⟩
    | write hcall hcf => exact ⟨⟨l, hl, hnew⟩, hfinish _ _ _⟩
    | writeFailed hcall => exact ⟨⟨l, hl, hnew⟩, hfinish _ _ _⟩
    | @fetchAdd i cf values batchBytes batch v rest hcall =>
      refine ⟨⟨l ++ [(b.callId i, v)], ?_, fun x hx => ?_⟩, hgrown⟩
      · dsimp only
        rw [hl, List.append_assoc]
      · rcases List.mem_append.mp hx with hold | hlast
        · exact hnew x hold
        · rw [List.mem_singleton.mp hlast]
          exact hgrown i
    | _ => exact ⟨⟨l, hl, hnew⟩, hgrown⟩

/-- The values of a call that returned stand before those of every call that had not taken the read
lock by then. -/
theorem returned_call_stands_before {s : RocksStore}
    (hkeys : ∀ cf, s.db.lookup s.activeCf = some cf → KeysBelow cf s.counter) {es fs : List (AppendEvent ι)}
    (hrun : Run AppendStep (.start ι s) es a) (hlater : Run AppendStep a fs b)
    (hroom : s.counter + b.drawn.length < 2 ^ 64) {i j : ι} {n m : ℕ} (hreturned : n < (a.finished i).length)
    (hm : (a.finished j).length ≤ m) (hwaiting : ¬(a.calls j).HasReadLock) {name : String} {c : ColumnFamily}
    (hc : b.db.lookup name = some c) :
    ∃ before after, c.values = (b.found name).map Prod.snd ++ (before.map Prod.snd ++ after.map Prod.snd) ∧
      heldValues b name = before ++ after ∧ (∀ x ∈ before, x.1 ≠ (j, m)) ∧ ∀ x ∈ after, x.1 ≠ (i, n) := by
  obtain ⟨l, hl, hnew⟩ := later_draws hlater
  have hle : a.drawn.length ≤ b.drawn.length := by
    rw [hl, List.length_append]
    exact Nat.le_add_right _ _
  have hinv := appends_invariant hkeys hrun (by omega)
  have hvalues := values_eq_heldValues (appends_invariant hkeys (hrun.append hlater) hroom) hc
  have hsplit : heldValues b name =
      a.drawn.filter (fun x => x.1 ∈ b.holds name) ++ l.filter (fun x => x.1 ∈ b.holds name) := by
    rw [heldValues, hl, List.filter_append]
  refine ⟨_, _, ?_, hsplit, fun x hx heq => ?_, fun x hx heq => ?_⟩
  · rw [hvalues, hsplit, List.map_append]
  · rcases hinv.begun x (List.mem_filter.mp hx).1 with hlt | ⟨-, hlock⟩
    · rw [heq] at hlt
      exact absurd hm (not_le.mpr hlt)
    · rw [heq] at hlock
      exact hwaiting hlock
  · have hge := hnew x (List.mem_filter.mp hx).1
    rw [heq] at hge
    exact absurd hreturned (not_lt.mpr hge)

/-- The second stream starts its call after the call of the first has returned. -/
theorem returned_call_stands_before_next :
    ∃ (b : Appends ℕ) (c : ColumnFamily), c.values = [[1], [2]] ∧
      ∃ before after, c.values = (b.found "active").map Prod.snd ++ (before.map Prod.snd ++ after.map Prod.snd) ∧
        heldValues b "active" = before ++ after ∧ (∀ x ∈ before, x.1 ≠ (1, 0)) ∧ ∀ x ∈ after, x.1 ≠ (0, 0) := by
  have hrun := (.cons (.clone rfl (by decide)) (.cons (.lookup rfl (by decide)) (.cons (.fetchAdd rfl)
    (.cons (.write rfl rfl) (.nil _)))) :
      Run AppendStep (.start ℕ freshStore) [.clone 0 [[1]], .lookup 0, .fetchAdd 0, .write 0] _)
  refine ⟨_, _, ?_, @returned_call_stands_before ℕ _ _ _ freshStore (fun _ => freshStore_keysBelow) _
    [.clone 1 [[2]], .lookup 1, .fetchAdd 1, .write 1] hrun
    (.cons (.clone rfl (by decide)) (.cons (.lookup rfl (by decide)) (.cons (.fetchAdd rfl)
      (.cons (.write rfl rfl) (.nil _))))) (by decide) 0 1 0 0 (by decide) (by decide) id "active" _ rfl⟩
  rfl

end MicewriterEngine.Proofs
