import Mathlib.Data.List.Infix
import MicewriterEngine.Model.IngestLoop

/-!
# The answers of the ingest loop

Every message gets one answer, in order, and the answer tells whether its record was
appended. After the client is gone, the loop ends with the next record that it appends.
-/

namespace MicewriterEngine.Proofs
open Lib

variable {expectedTable : String} {p q : IngestLoop} {e : IngestEvent}

def tableNameLen (payload : Bytes) : ℕ := ofBeBytes (payload.take 2)

def afterTableName (payload : Bytes) : Bytes := payload.drop (2 + tableNameLen payload)

/-- The frame is complete and names the engine's table. -/
def PassesChecks (expectedTable : String) (payload : Bytes) : Prop :=
  2 ≤ payload.length ∧ 2 + tableNameLen payload ≤ payload.length ∧
    fromUtf8Lossy ((payload.drop 2).take (tableNameLen payload)) = expectedTable

instance decidablePassesChecks (expectedTable : String) : DecidablePred (PassesChecks expectedTable) :=
  fun _ => inferInstanceAs (Decidable (_ ∧ _ ∧ _))

structure IngestAnswered (expectedTable : String) (p : IngestLoop) : Prop where
  /-- While the client listens, all messages are answered but the one that is being handled. -/
  count : p.receiverOpen = true →
    p.sent.length + p.phase.current.length + p.phase.pending.toList.length = p.received.length
  /-- The k-th answer is about the k-th message, and says that it was appended exactly when it was. -/
  truthful : ∀ (k : ℕ) (ack : Ack), p.sent[k]? = some ack →
    ∃ turn : IngestTurn, p.turns[k]? = some turn ∧ p.received[k]? = some turn.payload ∧
      (ack.ok = true ↔ PassesChecks expectedTable turn.payload ∧ turn.appended = true)
  /-- The records appended so far, and the one that is next, are those of the messages that pass. -/
  appends : p.appends.map Prod.fst ++ p.phase.record =
    (p.received.filter (fun payload => PassesChecks expectedTable payload)).map afterTableName

def IngestEvent.isAppend : IngestEvent → Bool
  | .append (.ok _) => true
  | _ => false

lemma checkFrame_of_passes {payload : Bytes} (h : PassesChecks expectedTable payload) :
    checkFrame expectedTable payload = .ok (afterTableName payload) := by
  obtain ⟨hlen, hname, htable⟩ := h
  simp only [tableNameLen] at hname htable
  simp [checkFrame, afterTableName, tableNameLen, Nat.not_lt.mpr hlen, Nat.not_lt.mpr hname, htable]

lemma checkFrame_of_not_passes {payload : Bytes} (h : ¬PassesChecks expectedTable payload) :
    ∃ message, checkFrame expectedTable payload = .error message := by
  unfold checkFrame
  dsimp only
  split
  · exact ⟨_, rfl⟩
  · split
    · exact ⟨_, rfl⟩
    · split
      · exact ⟨_, rfl⟩
      · rename_i hlen hname htable
        exact absurd ⟨not_lt.mp hlen, not_lt.mp hname, not_not.mp htable⟩ h

lemma checkFrame_ok {payload cborBytes : Bytes} (h : checkFrame expectedTable payload = .ok cborBytes) :
    PassesChecks expectedTable payload ∧ cborBytes = afterTableName payload := by
  by_cases hpasses : PassesChecks expectedTable payload
  · rw [checkFrame_of_passes hpasses] at h
    cases h
    exact ⟨hpasses, rfl⟩
  · obtain ⟨message, herror⟩ := checkFrame_of_not_passes hpasses
    rw [herror] at h
    cases h

lemma checkFrame_error {payload : Bytes} {message : String}
    (h : checkFrame expectedTable payload = .error message) : ¬PassesChecks expectedTable payload := by
  intro hpasses
  rw [checkFrame_of_passes hpasses] at h
  cases h

/-! ### The invariant -/

/-- The turn passed its record to `append_batch` exactly when its message passes the checks. -/
structure TurnFits (expectedTable : String) (turn : IngestTurn) : Prop where
  record : turn.append.map Prod.fst =
    if PassesChecks expectedTable turn.payload then some (afterTableName turn.payload) else none

structure LoopInv (expectedTable : String) (p : IngestLoop) : Prop where
  received : p.turns.map IngestTurn.payload ++ p.phase.current = p.received
  turns : ∀ turn ∈ p.turns, TurnFits expectedTable turn
  appending : ∀ payload cborBytes, p.phase = .appending payload cborBytes →
    PassesChecks expectedTable payload ∧ cborBytes = afterTableName payload
  /-- The answers sent, and the pending one, are those of the turns in order. -/
  answers : p.receiverOpen = true →
    p.sent.map Ack.ok ++ p.phase.pending.toList.map Ack.ok = p.turns.map IngestTurn.appended
  sent : p.sent.map Ack.ok <+: p.turns.map IngestTurn.appended

lemma loopInv_start : LoopInv expectedTable .start where
  received := rfl
  turns := fun _ h => absurd h List.not_mem_nil
  appending := fun _ _ h => by cases h
  answers := fun _ => rfl
  sent := List.prefix_rfl

/-- A turn whose outcome is decided and whose answer is pending. -/
lemma LoopInv.addTurn (hp : LoopInv expectedTable p) {turn : IngestTurn} {ack : Ack}
    (hidle : p.phase.pending = none) (hpending : q.phase.pending = some ack) (hcurrent : q.phase.current = [])
    (hturn : TurnFits expectedTable turn) (hack : ack.ok = turn.appended)
    (hreceived : p.turns.map IngestTurn.payload ++ [turn.payload] = q.received)
    (hturns : q.turns = p.turns ++ [turn]) (hsent : q.sent = p.sent) (hopen : q.receiverOpen = p.receiverOpen) :
    LoopInv expectedTable q where
  received := by
    rw [hturns, hcurrent, List.append_nil, List.map_append]
    exact hreceived
  turns := by
    rw [hturns]
    intro other hother
    rcases List.mem_append.mp hother with hold | hnew
    · exact hp.turns other hold
    · exact List.mem_singleton.mp hnew ▸ hturn
  appending := by
    intro payload cborBytes hphase
    rw [hphase] at hpending
    cases hpending
  answers := by
    intro hlistens
    have hanswers := hp.answers (hopen ▸ hlistens)
    rw [hidle, Option.toList_none, List.map_nil, List.append_nil] at hanswers
    rw [hsent, hpending, hturns, List.map_append, hanswers]
    simp [hack]
  sent := by
    rw [hsent, hturns, List.map_append]
    exact hp.sent.trans (List.prefix_append _ _)

lemma LoopInv.step (hp : LoopInv expectedTable p) (hstep : IngestStep expectedTable p e q) :
    LoopInv expectedTable q := by
  have hreceived := hp.received
  have hanswers := hp.answers
  cases hstep with
  | refused hreceiving hframe =>
    rw [hreceiving] at hreceived
    refine hp.addTurn (by rw [hreceiving]; rfl) rfl rfl ⟨?_⟩ rfl ?_ rfl rfl rfl
    · rw [if_neg (checkFrame_error hframe)]
      rfl
    · rw [← hreceived]
      simp [IngestPhase.current]
  | passed hreceiving hframe =>
    rw [hreceiving] at hreceived hanswers
    refine ⟨?_, hp.turns, fun _ _ hphase => ?_, hanswers, hp.sent⟩
    · rw [← hreceived]
      simp [IngestPhase.current]
    · cases hphase
      exact checkFrame_ok hframe
  | streamEnd hreceiving =>
    rw [hreceiving] at hreceived hanswers
    exact ⟨hreceived, hp.turns, fun _ _ hphase => (by cases hphase), hanswers, hp.sent⟩
  | appended _ happending | appendFailed _ happending =>
    obtain ⟨hpasses, hrecord⟩ := hp.appending _ _ happending
    rw [happending] at hreceived
    refine hp.addTurn (by rw [happending]; rfl) rfl rfl ⟨?_⟩ rfl ?_ rfl rfl rfl
    · rw [if_pos hpasses, hrecord]
      rfl
    · exact hreceived
  | sent hpending hopen hroom =>
    have hcurrent : p.phase.current = [] := by
      cases hphase : p.phase with
      | appending => rw [hphase] at hpending; cases hpending
      | _ => rfl
    have hsent := hanswers hopen
    rw [hpending] at hsent
    rw [hcurrent] at hreceived
    refine ⟨hreceived, hp.turns, fun _ _ hphase => (by cases hphase), fun _ => ?_, ?_⟩
    · rw [← hsent]
      simp [IngestLoop.sent, IngestPhase.pending]
    · rw [← hsent]
      simp [IngestLoop.sent]
  | refusalLost hlost hclosed | acknowledgementLost hlost hclosed =>
    rw [hlost] at hreceived
    refine ⟨hreceived, hp.turns, fun _ _ hphase => (by cases hphase), fun hopen => ?_, hp.sent⟩
    rw [hclosed] at hopen
    cases hopen
  | taken hopen hchannel =>
    rename_i ack rest
    have hsent : p.taken ++ [ack] ++ rest = p.sent := by
      rw [IngestLoop.sent, hchannel, List.append_assoc]
      rfl
    refine ⟨hreceived, hp.turns, hp.appending, ?_, ?_⟩
    · change p.receiverOpen = true → (p.taken ++ [ack] ++ rest).map Ack.ok ++ _ = _
      rw [hsent]
      exact hanswers
    · change (p.taken ++ [ack] ++ rest).map Ack.ok <+: _
      rw [hsent]
      exact hp.sent
  | close => exact ⟨hreceived, hp.turns, hp.appending, fun hopen => (by cases hopen), hp.sent⟩

/-- How many more records the loop can append once the client is gone. -/
def IngestPhase.appendsLeft : IngestPhase → ℕ
  | .receiving | .appending _ _ | .refusing _ => 1
  | _ => 0

lemma closed_step (hclosed : p.receiverOpen = false) (hstep : IngestStep expectedTable p e q) :
    q.receiverOpen = false ∧
      (if IngestEvent.isAppend e then 1 else 0) + IngestPhase.appendsLeft q.phase ≤
        IngestPhase.appendsLeft p.phase := by
  cases hstep with
  | refused hphase | passed hphase | streamEnd hphase | appended _ hphase | appendFailed _ hphase
  | refusalLost hphase | acknowledgementLost hphase =>
    simp [hclosed, hphase, IngestEvent.isAppend, IngestPhase.appendsLeft]
  | sent hpending hopen =>
    rw [hclosed] at hopen
    cases hopen
  | taken hopen =>
    rw [hclosed] at hopen
    cases hopen
  | close => simp [IngestEvent.isAppend]

lemma appends_after_close {es : List IngestEvent} (h : Run (IngestStep expectedTable) p es q)
    (hclosed : p.receiverOpen = false) :
    es.countP IngestEvent.isAppend ≤ IngestPhase.appendsLeft p.phase := by
  induction h with
  | nil => exact Nat.zero_le _
  | cons hfirst _ ih =>
    obtain ⟨hclosed', hleft⟩ := closed_step hclosed hfirst
    have hrest := ih hclosed'
    rw [List.countP_cons]
    omega

variable (expectedTable) in
/-- The client can take all answers from the channel. -/
lemma run_take (channel : List Ack) (hopen : p.receiverOpen = true) :
    ∃ es, Run (IngestStep expectedTable) { p with channel := channel } es
      { p with channel := [], taken := p.taken ++ channel } := by
  induction channel generalizing p with
  | nil =>
    refine ⟨[], ?_⟩
    rw [List.append_nil]
    exact .nil _
  | cons ack channel ih =>
    obtain ⟨es, hrun⟩ := ih (p := { p with taken := p.taken ++ [ack] }) hopen
    rw [List.append_assoc] at hrun
    exact ⟨.take :: es, .cons (.taken hopen rfl) hrun⟩

variable (expectedTable) in
/-- An answer that is pending is sent as soon as there is room, as long as the client listens. -/
theorem pending_sent {ack : Ack} (hpending : p.phase.pending = some ack) (hopen : p.receiverOpen = true) :
    ∃ es q, Run (IngestStep expectedTable) p es q ∧ q.phase = .receiving ∧ q.receiverOpen = true ∧
      q.sent = p.sent ++ [ack] ∧ q.turns = p.turns ∧ q.notified = p.notified := by
  obtain ⟨es, hrun⟩ := run_take expectedTable p.channel hopen
  have hroom : 0 < ackCapacity := by decide
  exact ⟨es ++ [.send], { p with phase := .receiving, channel := [ack], taken := p.taken ++ p.channel },
    hrun.snoc (.sent (p := { p with channel := [], taken := p.taken ++ p.channel }) hpending hopen hroom),
    rfl, hopen, rfl, rfl, rfl⟩

/-- A turn with the result of `append_batch` on some store is what `ingestMessage` computes. -/
theorem ingestMessage_turn (s : RocksStore) (payload : Bytes) (writeOk : Bool)
    (hreceiving : p.phase = .receiving) (hopen : p.receiverOpen = true) :
    ∃ es q turn, Run (IngestStep expectedTable) p es q ∧ q.phase = .receiving ∧
      q.sent = p.sent ++ [(ingestMessage s expectedTable payload writeOk).1] ∧
      q.notified = p.notified + (if (ingestMessage s expectedTable payload writeOk).2.1 then 1 else 0) ∧
      q.turns = p.turns ++ [turn] ∧ turn.payload = payload ∧
      turn.append = (checkFrame expectedTable payload).toOption.map
        (fun cborBytes => (cborBytes, (s.appendBatch [cborBytes] writeOk).1)) := by
  unfold ingestMessage
  cases hframe : checkFrame expectedTable payload with
  | error message =>
    obtain ⟨es, q, hrun, hphase, -, hsent, hturns, hnotified⟩ :=
      pending_sent expectedTable (p := { p with
        phase := .refusing message
        received := p.received ++ [payload]
        turns := p.turns ++ [⟨payload, none⟩] }) rfl hopen
    exact ⟨_, q, _, .cons (.refused hreceiving hframe) hrun, hphase, hsent, hnotified, hturns, rfl, rfl⟩
  | ok cborBytes =>
    rcases happend : s.appendBatch [cborBytes] writeOk with ⟨result, s'⟩
    cases result with
    | ok sizeExceeded =>
      obtain ⟨es, q, hrun, hphase, -, hsent, hturns, hnotified⟩ :=
        pending_sent expectedTable (p := { p with
          phase := .acknowledging
          received := p.received ++ [payload]
          notified := if sizeExceeded then p.notified + 1 else p.notified
          turns := p.turns ++ [⟨payload, some (cborBytes, .ok sizeExceeded)⟩] }) rfl hopen
      refine ⟨_, q, _, .cons (.passed hreceiving hframe) (.cons (.appended sizeExceeded rfl) hrun), hphase, ?_, ?_,
        hturns, rfl, ?_⟩
      · simp only [happend]
        exact hsent
      · simp only [happend]
        rw [hnotified]
        split <;> rfl
      · simp [Except.toOption, happend]
    | error e =>
      obtain ⟨es, q, hrun, hphase, -, hsent, hturns, hnotified⟩ :=
        pending_sent expectedTable (p := { p with
          phase := .refusing "Internal storage error"
          received := p.received ++ [payload]
          turns := p.turns ++ [⟨payload, some (cborBytes, .error e)⟩] }) rfl hopen
      refine ⟨_, q, _, .cons (.passed hreceiving hframe) (.cons (.appendFailed e rfl) hrun), hphase, ?_, ?_,
        hturns, rfl, ?_⟩
      · simp only [happend]
        exact hsent
      · simp only [happend]
        exact hnotified
      · simp [Except.toOption, happend]

lemma TurnFits.passes {turn : IngestTurn} (h : TurnFits expectedTable turn) (happended : turn.appended = true) :
    PassesChecks expectedTable turn.payload := by
  by_contra hrefused
  have hnone := h.record
  rw [if_neg hrefused, Option.map_eq_none_iff] at hnone
  rw [IngestTurn.appended, hnone] at happended
  cases happended

lemma records_of_turns {turns : List IngestTurn} (h : ∀ turn ∈ turns, TurnFits expectedTable turn) :
    (turns.filterMap IngestTurn.append).map Prod.fst =
      ((turns.map IngestTurn.payload).filter (fun payload => PassesChecks expectedTable payload)).map
        afterTableName := by
  induction turns with
  | nil => rfl
  | cons turn turns ih =>
    have hrest := ih (fun other hother => h other (List.mem_cons_of_mem turn hother))
    have hrecord := (h turn List.mem_cons_self).record
    by_cases hpasses : PassesChecks expectedTable turn.payload
    · rw [if_pos hpasses, Option.map_eq_some_iff] at hrecord
      obtain ⟨⟨record, result⟩, happend, rfl⟩ := hrecord
      simp [happend, hpasses, hrest]
    · rw [if_neg hpasses, Option.map_eq_none_iff] at hrecord
      simp [hrecord, hpasses, hrest]

lemma LoopInv.answered (hp : LoopInv expectedTable p) : IngestAnswered expectedTable p where
  count := by
    intro hopen
    have hanswers := congrArg List.length (hp.answers hopen)
    rw [← hp.received]
    simp only [List.length_append, List.length_map] at hanswers ⊢
    omega
  truthful := by
    intro k ack hack
    obtain ⟨rest, hrest⟩ := hp.sent
    have hsent : (p.sent.map Ack.ok)[k]? = some ack.ok := by rw [List.getElem?_map, hack]; rfl
    have hlt : k < (p.sent.map Ack.ok).length := (List.getElem?_eq_some_iff.mp hsent).1
    have hturns : (p.turns.map IngestTurn.appended)[k]? = some ack.ok := by
      rw [← hrest, List.getElem?_append_left hlt, hsent]
    rw [List.getElem?_map, Option.map_eq_some_iff] at hturns
    obtain ⟨turn, hturn, happended⟩ := hturns
    have hpayload : (p.turns.map IngestTurn.payload)[k]? = some turn.payload := by
      rw [List.getElem?_map, hturn]
      rfl
    have hfits := hp.turns turn (List.mem_of_getElem? hturn)
    refine ⟨turn, hturn, ?_, ?_⟩
    · rw [← hp.received, List.getElem?_append_left (List.getElem?_eq_some_iff.mp hpayload).1, hpayload]
    · rw [← happended]
      exact ⟨fun h => ⟨hfits.passes h, h⟩, And.right⟩
  appends := by
    have hrecord : p.phase.record =
        (p.phase.current.filter (fun payload => PassesChecks expectedTable payload)).map afterTableName := by
      cases hphase : p.phase with
      | appending payload cborBytes =>
        obtain ⟨hpasses, rfl⟩ := hp.appending payload cborBytes hphase
        simp [IngestPhase.record, IngestPhase.current, hpasses]
      | _ => rfl
    rw [← hp.received, List.filter_append, List.map_append, hrecord, ← records_of_turns hp.turns]
    rfl

/-- The loop of `ingest` over every run: the messages, the appends and the answers correspond, and
a closed receiver leaves at most one successful append. -/
theorem ingest_answers {es : List IngestEvent} (h : Run (IngestStep expectedTable) .start es p) :
    IngestAnswered expectedTable p ∧
      (p.receiverOpen = false → ∀ fs q, Run (IngestStep expectedTable) p fs q →
        fs.countP IngestEvent.isAppend ≤ 1) := by
  have hinv : LoopInv expectedTable p :=
    h.invariant (LoopInv expectedTable) (fun _ _ _ hp hstep => hp.step hstep) loopInv_start
  refine ⟨hinv.answered, fun hclosed fs q hrun => (appends_after_close hrun hclosed).trans ?_⟩
  unfold IngestPhase.appendsLeft
  split <;> omega

/-- The loop after a refused message, an appended one, and the end of the client. -/
def disconnectedLoop : IngestLoop where
  phase := .receiving
  channel := [⟨false, "Payload too small"⟩, ⟨true, "OK"⟩]
  taken := []
  receiverOpen := false
  notified := 0
  received := [[0], [0, 1, 116, 5]]
  turns := [⟨[0], none⟩, ⟨[0, 1, 116, 5], some ([5], .ok false)⟩]

theorem ingest_answers_disconnect :
    IngestAnswered "t" disconnectedLoop ∧
      (disconnectedLoop.receiverOpen = false → ∀ fs q, Run (IngestStep "t") disconnectedLoop fs q →
        fs.countP IngestEvent.isAppend ≤ 1) := by
  have hsmall : checkFrame "t" [0] = .error "Payload too small" := by decide
  have hpasses : checkFrame "t" [0, 1, 116, 5] = .ok [5] := by decide
  have hrefused : Run (IngestStep "t") .start [.message [0], .send]
      ⟨.receiving, [⟨false, "Payload too small"⟩], [], true, 0, [[0]], [⟨[0], none⟩]⟩ :=
    .cons (.refused rfl hsmall) (.cons (.sent rfl rfl (by decide)) (.nil _))
  have hrest : Run (IngestStep "t")
      ⟨.receiving, [⟨false, "Payload too small"⟩], [], true, 0, [[0]], [⟨[0], none⟩]⟩
      [.message [0, 1, 116, 5], .append (.ok false), .send, .close] disconnectedLoop :=
    .cons (.passed rfl hpasses) (.cons (.appended false rfl) (.cons (.sent rfl rfl (by decide))
      (.cons (.close _) (.nil _))))
  exact ingest_answers (hrefused.append hrest)

end MicewriterEngine.Proofs
