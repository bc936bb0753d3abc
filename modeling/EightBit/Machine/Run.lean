import EightBit.Machine.Cycle

/-!
# EightBit.Machine.Run -- runs of cycles into a sink

A run tries cycles until the machine halts, a cycle faults, the sink refuses output, or the
**allowance** is used up. The cycle counter is a 64-bit word, so the allowance is never more than
what the counter can still count.

An observer folds over the attempts of a run. It is handed values and hands back its own state, so
it can neither change the machine nor the outcome.
-/

namespace EightBit

/-! ## Sinks -/

/-- A writer of bytes that may have room for only so many. -/
structure Sink where
  /-- The number of bytes that still fit; without it any number fits. -/
  room : Option Nat
  /-- The bytes written so far. -/
  written : Array UInt8
deriving DecidableEq

namespace Sink

/-- A writer that never refuses. -/
def unbounded : Sink := ⟨none, #[]⟩

/-- A writer with room for `room` bytes. -/
def withRoom (room : Nat) : Sink := ⟨some room, #[]⟩

/-- Writes the bytes in order, as many as fit, and refuses if that is not all of them. -/
def write (s : Sink) (bytes : List UInt8) : Except SinkError Unit × Sink :=
  match s.room with
  | none => (.ok (), { s with written := s.written ++ bytes })
  | some room =>
    let s : Sink := ⟨some (room - bytes.length), s.written ++ bytes.take room⟩
    (if bytes.length ≤ room then .ok () else .error .full, s)

/-- The written bytes as text. Whatever is written is the text of characters below `U+0100`, so at
most the last character can be incomplete; it then shows as a replacement character. -/
def text (s : Sink) : String :=
  let bytes : ByteArray := ⟨s.written⟩
  match String.fromUTF8? bytes with
  | some text => text
  | none =>
    match String.fromUTF8? (bytes.extract 0 (bytes.size - 1)) with
    | some text => text ++ "\uFFFD"
    | none => "\uFFFD"

end Sink

/-! ## Runs -/

/-- The number that a 64-bit counter cannot pass. -/
def maxCount : Nat := UInt64.size - 1

/-- What is left of a run when it has ended. -/
structure Run (σ : Type) where
  outcome : Except Fault Unit
  machine : Machine
  sink : Sink
  /-- The observer's last state. -/
  observed : σ

/-- Sees one attempt: the machine before it, its report, and the machine after it. -/
abbrev Observer (σ : Type) := σ → Machine → Report → Machine → σ

/-- The observer that sees nothing. -/
def Observer.blind : Observer Unit := fun _ _ _ _ => ()

namespace Machine

/-- Tries up to `allowance` cycles. A cycle whose output the sink refuses is complete, and does not
halt the machine. -/
def runFor {σ : Type} (observe : Observer σ) : (allowance : Nat) → Machine → Sink → σ → Run σ
  | 0, m, sink, seen => ⟨.ok (), m, sink, seen⟩
  | allowance + 1, m, sink, seen =>
    if m.isHalted then ⟨.ok (), m, sink, seen⟩
    else
      let (report, after) := m.attempt
      let seen := observe seen m report after
      match report.outcome with
      | .error fault => ⟨.error fault, after, sink, seen⟩
      | .ok step =>
        match step.output with
        | none => runFor observe allowance after sink seen
        | some output =>
          match sink.write output.bytes with
          | (.ok (), sink) => runFor observe allowance after sink seen
          | (.error cause, sink) => ⟨.error (.output cause), after, sink, seen⟩

/-- The number of cycles that a run with this limit may still complete. -/
def allowance (m : Machine) (limit : Nat) : Nat :=
  min limit (maxCount - m.cycles.toNat)

/-- The number of cycles after which the machine's configuration stops a run. -/
def configuredLimit (m : Machine) : Nat :=
  match m.config.maxCycles with
  | some limit => limit.toNat
  | none => maxCount

/-- Runs until the machine halts or has completed `limit` more cycles. -/
def runLimited (m : Machine) (limit : Nat) (sink : Sink) : Run Unit :=
  m.runFor Observer.blind (m.allowance limit) sink ()

/-- Runs until the machine halts or has completed as many cycles as its configuration allows. -/
def runObserved {σ : Type} (m : Machine) (observe : Observer σ) (sink : Sink) (seen : σ) : Run σ :=
  m.runFor observe (m.allowance m.configuredLimit) sink seen

/-- Runs without an observer. -/
def run (m : Machine) (sink : Sink) : Run Unit :=
  m.runObserved Observer.blind sink ()

end Machine

/-- The number of cycles that a run which began at `start` has completed. -/
def Run.count {σ : Type} (r : Run σ) (start : Machine) : UInt64 :=
  r.machine.cycles - start.cycles

/-- The number of completed cycles of a run that succeeded, or its fault. -/
def Run.result {σ : Type} (r : Run σ) (start : Machine) : Except Fault UInt64 :=
  r.outcome.map fun () => r.count start

end EightBit
