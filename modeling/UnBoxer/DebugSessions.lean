import UnBoxer.DebugStub
import Mathlib.Data.List.Induction

namespace UnBoxer.DebugSessions

open Debugserver DebugPackets DebugStub

variable {τ : Type}

/-- A client and its stub, the bytes that the stub has sent and the client has not read, and
what the calls have returned. -/
structure Session (τ : Type) where
  client : Client
  stub : τ
  down : List UInt8
  results : List (Error × Option CString)

structure Call where
  command : Command
  pauses : List ℕ

/-- The call is waited for. No command holds `#`, and `QStartNoAckMode` has no arguments. -/
structure Call.Proper (client : Client) (c : Call) : Prop where
  free : hashMark ∉ c.command.name
  bare : c.command.name = startNoAckMode → c.command.argv = []
  waited : client.cancelReceive = true ∨ c.pauses = []

section Calls

variable (stub : Stub τ)

/-- A call whose command goes out. The stub reads it before the client reads what arrives, and
then what else the client has sent. -/
def Session.exchange (s : Session τ) (command : Command) (arrivals : List UInt8 → List Arrival) :
    Option (Session τ) :=
  let sendBuffer := formatCommand command.name (commandArguments command.argv)
  let (t₁, out₁) := stub.feed s.stub sendBuffer
  match sendCommand s.client command .all (arrivals (s.down ++ out₁)) with
  | none => none
  | some (outcome, client) =>
    let (t₂, out₂) := stub.feed t₁ (outcome.sent.drop sendBuffer.length)
    some ⟨client, t₂, bytesOf outcome.rest ++ out₂,
      s.results ++ [(outcome.res, outcome.response)]⟩

def Session.call (s : Session τ) (c : Call) : Option (Session τ) :=
  s.exchange stub c.command (arrive c.pauses)

def Session.calls (s : Session τ) (cs : List Call) : Option (Session τ) :=
  cs.foldlM (Session.call stub) s

end Calls

def start (client : Client) (t : τ) : Session τ := ⟨client, t, [], []⟩

structure Fresh (stub : Stub τ) (client : Client) (t : τ) : Prop where
  idle : stub.Idle t
  log : stub.log t = []
  mode : client.noackMode = stub.noackMode t

def packets (calls : List Call) : List CString := calls.map fun c => packetOf c.command

def shown (e : CString × CString) : Error × Option CString := (.success, some e.2)

variable {stub : Stub τ} {client : Client} {t t₁ t₂ : τ} {s s₁ s₂ : Session τ} {c : Call}
  {cs : List Call}

theorem packets_concat (cs : List Call) (c : Call) :
    packets (cs ++ [c]) = packets cs ++ [packetOf c.command] := List.map_append

theorem calls_append (h : s.calls stub cs = some s₁) (cs' : List Call) :
    s.calls stub (cs ++ cs') = s₁.calls stub cs' := by
  rw [Session.calls] at h
  rw [Session.calls, List.foldlM_append, h]
  rfl

theorem calls_one (h : s.call stub c = some s₁) : s.calls stub [c] = some s₁ := by
  rw [Session.calls, List.foldlM_cons, h]
  rfl

theorem proper_packetOf (h : c.Proper client) :
    packetOf c.command = startNoAckMode ↔ c.command.name = startNoAckMode := by
  refine ⟨name_of_packetOf, fun hn => ?_⟩
  rw [packetOf, h.bare hn, hn]
  rfl

section Exchanges

variable {command : Command} {arrivals : List UInt8 → List Arrival} {p a : CString}
  {g : List UInt8}

theorem sendCommand_eq {arrivals : List Arrival} {r : Outcome}
    (h : receiveResponse client arrivals = some r) (hr : r.res = .success) :
    sendCommand client command .all arrivals =
      some ({ r with sent := formatCommand command.name (commandArguments command.argv) ++ r.sent },
        if command.name = startNoAckMode then setAckMode client false else client) := by
  rw [sendCommand]
  simp only [h, hr, ne_eq, not_true_eq_false, if_false]
  split <;> rfl

theorem exchange_eq {out : List UInt8} {outcome : Outcome} {sent : List UInt8}
    (hfeed : stub.feed s.stub (formatCommand command.name (commandArguments command.argv)) =
      (t₁, out))
    (hsend : sendCommand s.client command .all (arrivals (s.down ++ out)) =
      some (outcome, client))
    (hsent : outcome.sent = formatCommand command.name (commandArguments command.argv) ++ sent)
    (hacks : stub.feed t₁ sent = (t₂, [])) :
    s.exchange stub command arrivals = some ⟨client, t₂, bytesOf outcome.rest,
      s.results ++ [(outcome.res, outcome.response)]⟩ := by
  simp only [Session.exchange, hfeed, hsend, hsent, List.drop_left, hacks, List.append_nil]

theorem acknowledged (hS : stub.Documented) {f : List UInt8} (ha : stub.Answers t p f a t₁ g) :
    ∃ t₂, stub.feed t₁ (if stub.noackMode t then [] else [ackMark]) = (t₂, []) ∧
      stub.Idle t₂ ∧ stub.log t₂ = stub.log t ++ [(p, a)] ∧
      stub.noackMode t₂ = (stub.noackMode t || decide (p = startNoAckMode ∧ a = ok)) := by
  have hnext := ha.next
  cases hn : stub.noackMode t with
  | true =>
    rw [hn, if_pos rfl] at hnext
    refine ⟨t₁, hS.silent t₁, hnext, ha.log, ?_⟩
    rw [ha.noackMode, hn]
  | false =>
    rw [hn, if_neg Bool.false_ne_true] at hnext
    obtain ⟨t₂, hfeed, hidle, hlog, hmode⟩ := hS.ack t₁ hnext
    refine ⟨t₂, hfeed, hidle, hlog.trans ha.log, ?_⟩
    rw [hmode, ha.noackMode, hn]

/-- A stub that does not acknowledge sends its answer alone, and waits for the next packet. -/
theorem answers_alone (hS : stub.Documented) (hi : stub.Idle t) (hm : stub.noackMode t = true)
    {f : List UInt8} (hf : Framed p f) :
    ∃ a t₁ g, Framed a g ∧ stub.feed t f = (t₁, g) ∧ stub.Idle t₁ ∧
      stub.log t₁ = stub.log t ++ [(p, a)] ∧ stub.noackMode t₁ = true := by
  obtain ⟨a, t₁, g, ha⟩ := hS.packet t p f hi hf
  have hfeed := ha.sent
  have hnext := ha.next
  have hmode := ha.noackMode
  rw [hm, if_pos rfl] at hfeed hnext
  rw [hm, Bool.true_or] at hmode
  exact ⟨a, t₁, g, ha.framed, hfeed, hnext, ha.log, hmode⟩

/-- Where client and stub agree whether to acknowledge, and nothing is left over, a call returns
the answer to its command. -/
theorem call_answered (hS : stub.Documented) (hi : stub.Idle s.stub) (hd : s.down = [])
    (hm : s.client.noackMode = stub.noackMode s.stub) (hc : c.Proper s.client) :
    ∃ a t₂, s.call stub c = some ⟨
        if c.command.name = startNoAckMode then setAckMode s.client false else s.client,
        t₂, [], s.results ++ [(.success, some a)]⟩ ∧
      stub.Idle t₂ ∧ stub.log t₂ = stub.log s.stub ++ [(packetOf c.command, a)] ∧
      stub.noackMode t₂ = (stub.noackMode s.stub ||
        decide (packetOf c.command = startNoAckMode ∧ a = ok)) ∧
      ∃ f t₁ g, Framed (packetOf c.command) f ∧ stub.Answers s.stub (packetOf c.command) f a t₁ g
        := by
  have hf := formatCommand_framed hc.free
  obtain ⟨a, t₁, g, ha⟩ := hS.packet _ _ _ hi hf
  obtain ⟨t₂, hack, hidle, hlog, hmode⟩ := acknowledged hS ha
  have hfeed := ha.sent
  rw [← hm] at hfeed hack
  have hcar : Carries s.client
      (arrive c.pauses (s.down ++ ((if s.client.noackMode then [] else [ackMark]) ++ g)))
      ((if s.client.noackMode then [] else [ackMark]) ++ g ++ []) := by
    rw [hd, List.nil_append, List.append_nil]
    exact carries_arrive _ hc.waited
  obtain ⟨rest, hr, hrest⟩ := @receiveResponse_spec _ _ _ _ [] ha.framed hcar
  refine ⟨a, t₂, ?_, hidle, hlog, hmode, _, t₁, g, hf, ha⟩
  rw [← hrest.bytes]
  exact exchange_eq hfeed (sendCommand_eq hr rfl) rfl hack

end Exchanges

section Answered

/-- Every call has returned the answer to its command, and nothing is left over. -/
structure Answered (stub : Stub τ) (client : Client) (cs : List Call) (s : Session τ) : Prop where
  cancels : s.client.cancelReceive = client.cancelReceive
  idle : stub.Idle s.stub
  down : s.down = []
  received : (stub.log s.stub).map Prod.fst = packets cs
  results : s.results = (stub.log s.stub).map shown

structure Agrees (stub : Stub τ) (client : Client) (cs : List Call) (s : Session τ) : Prop
    extends Answered stub client cs s where
  mode : s.client.noackMode = stub.noackMode s.stub

theorem Agrees.start (h : Fresh stub client t) : Agrees stub client [] (start client t) where
  cancels := rfl
  mode := h.mode
  idle := h.idle
  down := rfl
  received := by
    change (stub.log t).map Prod.fst = _
    rw [h.log]
    rfl
  results := by
    change [] = (stub.log t).map shown
    rw [h.log]
    rfl

theorem Call.Proper.of_cancels (h : c.Proper client)
    (hs : s.client.cancelReceive = client.cancelReceive) : c.Proper s.client :=
  ⟨h.free, h.bare, by rw [hs]; exact h.waited⟩

theorem Agrees.answered (hS : stub.Documented) (h : Agrees stub client cs s)
    (hc : c.Proper client) :
    ∃ s' a, s.call stub c = some s' ∧ Answered stub client (cs ++ [c]) s' ∧
      s'.client =
        (if c.command.name = startNoAckMode then setAckMode s.client false else s.client) ∧
      stub.noackMode s'.stub = (stub.noackMode s.stub ||
        decide (packetOf c.command = startNoAckMode ∧ a = ok)) ∧
      ∃ f t₁ g, Framed (packetOf c.command) f ∧
        stub.Answers s.stub (packetOf c.command) f a t₁ g := by
  obtain ⟨a, t₂, hcall, hidle, hlog, hmode, hans⟩ :=
    call_answered hS h.idle h.down h.mode (hc.of_cancels h.cancels)
  refine ⟨_, a, hcall, ⟨?_, hidle, rfl, ?_, ?_⟩, rfl, hmode, hans⟩
  · split
    · exact h.cancels
    · exact h.cancels
  · rw [hlog, List.map_append, h.received, packets_concat]
    rfl
  · rw [hlog, List.map_append, h.results]
    rfl

theorem Agrees.call (hS : stub.Documented) (h : Agrees stub client cs s) (hc : c.Proper client)
    (hok : stub.Agrees ∨ c.command.name ≠ startNoAckMode) :
    ∃ s', s.call stub c = some s' ∧ Agrees stub client (cs ++ [c]) s' ∧
      (c.command.name ≠ startNoAckMode → s'.client = s.client) := by
  obtain ⟨s', a, hcall, hans, hclient, hmode, f, t₁, g, hf, ha⟩ := h.answered hS hc
  refine ⟨s', hcall, ⟨hans, ?_⟩, fun hn => hclient.trans (if_neg hn)⟩
  rw [hclient, hmode]
  by_cases hn : c.command.name = startNoAckMode
  · have hp := (proper_packetOf hc).mpr hn
    rw [hp] at hf ha
    have hok' := hok.resolve_right fun hne => hne hn
    rw [if_pos hn, hp, hok' _ _ _ _ _ h.idle hf ha]
    simp [setAckMode]
  · have hp := mt (proper_packetOf hc).mp hn
    rw [if_neg hn, h.mode]
    simp [hp]

theorem Agrees.calls (hS : stub.Documented) (h : Agrees stub client [] s)
    (hc : ∀ c ∈ cs, c.Proper client ∧ (stub.Agrees ∨ c.command.name ≠ startNoAckMode)) :
    ∃ s', s.calls stub cs = some s' ∧ Agrees stub client cs s' ∧
      ((∀ c ∈ cs, c.command.name ≠ startNoAckMode) → s'.client = s.client) := by
  induction cs using List.reverseRecOn with
  | nil => exact ⟨s, rfl, h, fun _ => rfl⟩
  | append_singleton cs c ih =>
    obtain ⟨s₁, h₁, ha, hk⟩ := ih fun c hm => hc c (List.mem_append_left _ hm)
    obtain ⟨hp, hok⟩ := hc c (List.mem_append_right cs List.mem_cons_self)
    obtain ⟨s₂, h₂, ha', hk'⟩ := ha.call hS hp hok
    refine ⟨s₂, (calls_append h₁ [c]).trans (calls_one h₂), ha', fun hn => ?_⟩
    rw [hk' (hn c (List.mem_append_right cs List.mem_cons_self))]
    exact hk fun c hm => hn c (List.mem_append_left _ hm)

end Answered

section Samples

end Samples

end UnBoxer.DebugSessions
