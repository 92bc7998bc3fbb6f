import MicewriterEngine.Lib.Runs
import MicewriterEngine.Model.GrpcServer

/-!
# The loop of `ingest`

The task that `ingest` spawns for a stream of records, with the channel of its answers.
The messages, the results of `append_batch` and the client are outside. The client takes
answers from the channel, and may close it at any time.
-/

namespace MicewriterEngine

/-- A message whose outcome is decided: what was passed to `append_batch`, and its result. -/
structure IngestTurn where
  payload : Bytes
  append : Option (Bytes × Except Error Bool)

/-- The record of the message was appended. -/
def IngestTurn.appended (turn : IngestTurn) : Bool :=
  match turn.append with
  | some (_, .ok _) => true
  | _ => false

/-- Where the loop stands. A failed send of a refusal is ignored, that of an acknowledgement ends
the loop. -/
inductive IngestPhase
  | receiving
  | appending (payload cborBytes : Bytes)
  | refusing (message : String)
  | acknowledging
  | ended

/-- The answer that waits to be sent. -/
def IngestPhase.pending : IngestPhase → Option Ack
  | .refusing message => some ⟨false, message⟩
  | .acknowledging => some ⟨true, "OK"⟩
  | _ => none

/-- The message whose outcome is open. -/
def IngestPhase.current : IngestPhase → List Bytes
  | .appending payload _ => [payload]
  | _ => []

/-- The record that waits to be appended. -/
def IngestPhase.record : IngestPhase → List Bytes
  | .appending _ cborBytes => [cborBytes]
  | _ => []

structure IngestLoop where
  phase : IngestPhase
  /-- Answers that were sent and that the client has not taken yet. -/
  channel : List Ack
  taken : List Ack
  receiverOpen : Bool
  /-- How often the flush was triggered. -/
  notified : ℕ
  /-- The payloads of all messages so far. -/
  received : List Bytes
  turns : List IngestTurn

namespace IngestLoop

def start : IngestLoop := ⟨.receiving, [], [], true, 0, [], []⟩

/-- All answers that were sent. -/
def sent (p : IngestLoop) : List Ack := p.taken ++ p.channel

/-- The calls of `append_batch` with their results. -/
def appends (p : IngestLoop) : List (Bytes × Except Error Bool) := p.turns.filterMap IngestTurn.append

end IngestLoop

/-- The capacity of the channel. -/
def ackCapacity : ℕ := 128

inductive IngestEvent
  | message (payload : Bytes)
  /-- The stream ends or fails. -/
  | streamEnd
  | append (result : Except Error Bool)
  | send
  | take
  | close

inductive IngestStep (expectedTable : String) : IngestLoop → IngestEvent → IngestLoop → Prop
  | refused {p : IngestLoop} {payload : Bytes} {message : String} (hreceiving : p.phase = .receiving)
      (hframe : checkFrame expectedTable payload = .error message) :
      IngestStep expectedTable p (.message payload)
        { p with
          phase := .refusing message
          received := p.received ++ [payload]
          turns := p.turns ++ [⟨payload, none⟩] }
  | passed {p : IngestLoop} {payload cborBytes : Bytes} (hreceiving : p.phase = .receiving)
      (hframe : checkFrame expectedTable payload = .ok cborBytes) :
      IngestStep expectedTable p (.message payload)
        { p with
          phase := .appending payload cborBytes
          received := p.received ++ [payload] }
  | streamEnd {p : IngestLoop} (hreceiving : p.phase = .receiving) :
      IngestStep expectedTable p .streamEnd { p with phase := .ended }
  | appended {p : IngestLoop} {payload cborBytes : Bytes} (sizeExceeded : Bool)
      (happending : p.phase = .appending payload cborBytes) :
      IngestStep expectedTable p (.append (.ok sizeExceeded))
        { p with
          phase := .acknowledging
          notified := if sizeExceeded then p.notified + 1 else p.notified
          turns := p.turns ++ [⟨payload, some (cborBytes, .ok sizeExceeded)⟩] }
  | appendFailed {p : IngestLoop} {payload cborBytes : Bytes} (e : Error)
      (happending : p.phase = .appending payload cborBytes) :
      IngestStep expectedTable p (.append (.error e))
        { p with
          phase := .refusing "Internal storage error"
          turns := p.turns ++ [⟨payload, some (cborBytes, .error e)⟩] }
  /-- A send waits until there is room in the channel. -/
  | sent {p : IngestLoop} {ack : Ack} (hpending : p.phase.pending = some ack) (hopen : p.receiverOpen = true)
      (hroom : p.channel.length < ackCapacity) :
      IngestStep expectedTable p .send { p with phase := .receiving, channel := p.channel ++ [ack] }
  | refusalLost {p : IngestLoop} {message : String} (hrefusing : p.phase = .refusing message)
      (hclosed : p.receiverOpen = false) :
      IngestStep expectedTable p .send { p with phase := .receiving }
  /-- The client disconnected. -/
  | acknowledgementLost {p : IngestLoop} (hacknowledging : p.phase = .acknowledging)
      (hclosed : p.receiverOpen = false) :
      IngestStep expectedTable p .send { p with phase := .ended }
  | taken {p : IngestLoop} {ack : Ack} {rest : List Ack} (hopen : p.receiverOpen = true)
      (hchannel : p.channel = ack :: rest) :
      IngestStep expectedTable p .take { p with channel := rest, taken := p.taken ++ [ack] }
  | close (p : IngestLoop) : IngestStep expectedTable p .close { p with receiverOpen := false }

end MicewriterEngine
