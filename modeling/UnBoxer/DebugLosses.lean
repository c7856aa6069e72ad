import UnBoxer.DebugSessions

namespace UnBoxer.DebugLosses

open Debugserver DebugPackets DebugStub DebugSessions

variable {τ : Type} {stub : Stub τ} {client : Client} {t : τ} {s s₁ s₂ : Session τ} {c : Call}
  {cs before after : List Call}

section Refused

end Refused

section Abandoned

/-- A call has been given up, and its answer is still to be read: the client reads the answer
before the last. -/
structure Late (stub : Stub τ) (client : Client) (s₁ : Session τ) (failed : Error × Option CString)
    (ps : List CString) (s : Session τ) : Prop where
  cancels : s.client.cancelReceive = client.cancelReceive
  client : s.client.noackMode = true
  mode : stub.noackMode s.stub = true
  idle : stub.Idle s.stub
  received : (stub.log s.stub).map Prod.fst = ps
  queue : ∃ l e, stub.log s.stub = stub.log s₁.stub ++ l ++ [e] ∧ Framed e.2 s.down ∧
    s.results = s₁.results ++ failed :: l.map shown

variable {failed : Error × Option CString} {ps : List CString}

theorem Late.call (hS : stub.Documented) (h : Late stub client s₁ failed ps s)
    (hc : c.Proper client) :
    ∃ s', s.call stub c = some s' ∧ Late stub client s₁ failed (ps ++ [packetOf c.command]) s' := by
  obtain ⟨l, e, hlog, hdown, hres⟩ := h.queue
  have hc' := hc.of_cancels h.cancels
  obtain ⟨a, t₁, g, hg, hfeed, hidle, hnew, hmode⟩ :=
    answers_alone hS h.idle h.mode (formatCommand_framed hc.free)
  obtain ⟨rest, hr, hrest⟩ :=
    receiveResponse_noack h.client hdown (carries_arrive (s.down ++ g) hc'.waited)
  have hcall := exchange_eq hfeed (sendCommand_eq hr rfl) rfl (hS.silent t₁)
  refine ⟨_, hcall, ?_, ?_, hmode, hidle, ?_, l ++ [e], (packetOf c.command, a), ?_, ?_, ?_⟩
  · split
    · exact h.cancels
    · exact h.cancels
  · split
    · rfl
    · exact h.client
  · rw [hnew, List.map_append, h.received]
    rfl
  · rw [hnew, hlog, List.append_assoc (stub.log s₁.stub)]
  · rw [hrest.bytes]
    exact hg
  · rw [hres, List.map_append, List.append_assoc, List.cons_append]
    rfl

theorem Late.calls (hS : stub.Documented) (h : Late stub client s₁ failed ps s)
    (hc : ∀ c ∈ cs, c.Proper client) :
    ∃ s', s.calls stub cs = some s' ∧ Late stub client s₁ failed (ps ++ packets cs) s' := by
  induction cs using List.reverseRecOn with
  | nil =>
    refine ⟨s, rfl, ?_⟩
    rwa [packets, List.map_nil, List.append_nil]
  | append_singleton cs c ih =>
    obtain ⟨s₂, h₂, hl⟩ := ih fun c hm => hc c (List.mem_append_left _ hm)
    obtain ⟨s₃, h₃, hl'⟩ := hl.call hS (hc c (List.mem_append_right cs List.mem_cons_self))
    refine ⟨s₃, (calls_append h₂ [c]).trans (calls_one h₃), ?_⟩
    rwa [packets_concat, ← List.append_assoc]

end Abandoned

end UnBoxer.DebugLosses
