import UnBoxer.DebugPackets

namespace UnBoxer.DebugStub

open Debugserver DebugPackets

def ok : CString := ofAscii "OK"

section Protocol

/-- The stub at the other end of the connection, on the device. Of its state one sees whether it
acknowledges, the packets it has accepted with its answers, and whether it waits for a packet or
for the acknowledgement of its answer. -/
structure Stub (τ : Type) where
  feed : τ → List UInt8 → τ × List UInt8
  noackMode : τ → Bool
  log : τ → List (CString × CString)
  Idle : τ → Prop
  Awaits : τ → Prop

variable {τ : Type}

/-- Reading the packet `f`, which holds `p`, the stub acknowledges it unless it has stopped to,
and sends `g` with the answer `a`. It stops with the answer `OK` to `QStartNoAckMode`. -/
structure Stub.Answers (stub : Stub τ) (t : τ) (p : CString) (f : List UInt8) (a : CString)
    (t' : τ) (g : List UInt8) : Prop where
  framed : Framed a g
  sent : stub.feed t f = (t', (if stub.noackMode t then [] else [ackMark]) ++ g)
  log : stub.log t' = stub.log t ++ [(p, a)]
  noackMode : stub.noackMode t' = (stub.noackMode t || decide (p = startNoAckMode ∧ a = ok))
  next : if stub.noackMode t then stub.Idle t' else stub.Awaits t'

/-- What the remote protocol says of a stub that reads whole packets, and acknowledgements where
it waits for one. -/
structure Stub.Documented (stub : Stub τ) : Prop where
  silent : ∀ t, stub.feed t [] = (t, [])
  packet : ∀ t p f, stub.Idle t → Framed p f → ∃ a t' g, stub.Answers t p f a t' g
  ack : ∀ t, stub.Awaits t → ∃ t', stub.feed t [ackMark] = (t', []) ∧ stub.Idle t' ∧
    stub.log t' = stub.log t ∧ stub.noackMode t' = stub.noackMode t

def Stub.Agrees (stub : Stub τ) : Prop :=
  ∀ t f a t' g, stub.Idle t → Framed startNoAckMode f →
    stub.Answers t startNoAckMode f a t' g → a = ok

end Protocol

section Packets

/-- What a command is on the wire. -/
def packetOf (command : Command) : CString :=
  command.name ++ ((commandArguments command.argv).map encodeString).getD []

theorem hash_notMem_packetOf {command : Command} (h : hashMark ∉ command.name) :
    hashMark ∉ packetOf command := by
  intro hm
  obtain hm | hm := List.mem_append.mp hm
  · exact h hm
  · cases ha : commandArguments command.argv with
    | none =>
      rw [ha] at hm
      cases hm
    | some arguments =>
      rw [ha] at hm
      exact hash_notMem_encodeString arguments hm

theorem formatCommand_framed {command : Command} (h : hashMark ∉ command.name) :
    Framed (packetOf command)
      (formatCommand command.name (commandArguments command.argv)) where
  free := hash_notMem_packetOf h
  digits := by
    have hsum := checksum_sum (packetOf command)
    have h₁ : (getChecksumForBuffer (packetOf command)).toNat / 16 % 16 =
        sum (packetOf command) / 16 % 16 := by omega
    have h₂ : (getChecksumForBuffer (packetOf command)).toNat % 16 =
        sum (packetOf command) % 16 := by omega
    refine ⟨int2hex (sum (packetOf command) / 16 % 16), int2hex (sum (packetOf command) % 16),
      ?_, ?_, ?_⟩
    · rw [← h₁, ← h₂, ← hexEncodeFirstByte_eq, ← hexEncodeSecondByte_eq]
      rfl
    · exact unhex_int2hex _ (Nat.mod_lt _ (by omega))
    · exact unhex_int2hex _ (Nat.mod_lt _ (by omega))

theorem encodeString_ne (name : CString) {buffer s : CString} {b : UInt8}
    (hs : encodeString buffer ≠ []) (hb : ∀ x < 16, int2hex x ≠ b) :
    name ++ encodeString buffer ≠ s ++ [b] := by
  induction buffer generalizing name with
  | nil => exact absurd rfl hs
  | cons c buffer ih =>
    rw [encodeString]
    cases hc : encodeString buffer with
    | nil =>
      intro h
      have hlast := congrArg List.getLast? h
      rw [List.getLast?_append, List.getLast?_concat] at hlast
      rw [hexEncodeSecondByte_eq] at hlast
      exact hb _ (Nat.mod_lt _ (by omega)) (Option.some.inj hlast)
    | cons x xs =>
      intro h
      refine ih (name ++ [hexEncodeFirstByte c.toNat, hexEncodeSecondByte c.toNat]) ?_ ?_
      · rw [hc]
        exact List.cons_ne_nil x xs
      · rw [hc, ← h, List.append_assoc]
        rfl

theorem name_of_packetOf {command : Command} (h : packetOf command = startNoAckMode) :
    command.name = startNoAckMode := by
  rw [packetOf] at h
  cases ha : commandArguments command.argv with
  | none =>
    rw [ha] at h
    simpa using h
  | some arguments =>
    rw [ha] at h
    by_cases hs : encodeString arguments = []
    · simpa [hs] using h
    · exact absurd h (@encodeString_ne _ _ startNoAckMode.dropLast 101 hs (by decide))

end Packets

section Machines

inductive Stage
  | idle
  | body (data : CString)
  | first (data : CString)
  | second (data : CString) (x : UInt8)
  | awaits
  deriving DecidableEq

structure Machine where
  noackMode : Bool
  stage : Stage
  log : List (CString × CString)

def digit (x : ℕ) : UInt8 := (ofAscii "0123456789abcdef").getD x 0

def packet (p : CString) : List UInt8 :=
  dollar :: (p ++ [hashMark, digit (sum p / 16 % 16), digit (sum p % 16)])

variable (answer : CString → CString)

def Machine.accept (m : Machine) (data : CString) : Machine × List UInt8 :=
  ({ noackMode := m.noackMode || decide (data = startNoAckMode ∧ answer data = ok),
     stage := if m.noackMode then .idle else .awaits,
     log := m.log ++ [(data, answer data)] },
    (if m.noackMode then [] else [ackMark]) ++ packet (answer data))

def Machine.read (m : Machine) (b : UInt8) : Machine × List UInt8 :=
  match m.stage with
  | .idle => if b = dollar then ({ m with stage := .body [] }, []) else (m, [])
  | .body data =>
    if b = hashMark then ({ m with stage := .first data }, [])
    else ({ m with stage := .body (data ++ [b]) }, [])
  | .first data => ({ m with stage := .second data b }, [])
  | .second data x =>
    if m.noackMode ∨ (unhex x = some (sum data / 16 % 16) ∧ unhex b = some (sum data % 16)) then
      m.accept answer data
    else ({ m with stage := .idle }, [noackMark])
  | .awaits =>
    if b = ackMark then ({ m with stage := .idle }, [])
    else (m, if b = noackMark then (m.log.getLast?.map fun e => packet e.2).getD [] else [])

def Machine.feed (m : Machine) : List UInt8 → Machine × List UInt8
  | [] => (m, [])
  | b :: bs =>
    let (m₁, out₁) := m.read answer b
    let (m₂, out₂) := m₁.feed bs
    (m₂, out₁ ++ out₂)

variable {answer} {m : Machine} {p bs : List UInt8}

end Machines

end UnBoxer.DebugStub
