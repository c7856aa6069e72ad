import UnBoxer.Debugserver

namespace UnBoxer.DebugPackets

open Debugserver

section Hex

theorem shiftRight_four (n : ℕ) : n >>> 4 = n / 16 := Nat.shiftRight_eq_div_pow n 4

theorem and_fifteen (n : ℕ) : n &&& 0xf = n % 16 := Nat.and_two_pow_sub_one_eq_mod n 4

theorem int2hex_ne_hash : ∀ x < 16, int2hex x ≠ hashMark := by decide

theorem hexEncodeFirstByte_eq (n : ℕ) : hexEncodeFirstByte n = int2hex (n / 16 % 16) := by
  rw [hexEncodeFirstByte, and_fifteen, shiftRight_four]

theorem hexEncodeSecondByte_eq (n : ℕ) : hexEncodeSecondByte n = int2hex (n % 16) := by
  rw [hexEncodeSecondByte, and_fifteen]

def unhex (c : UInt8) : Option ℕ :=
  if 48 ≤ c ∧ c ≤ 57 then some (c.toNat - 48)
  else if 97 ≤ c ∧ c ≤ 102 then some (c.toNat - 87)
  else if 65 ≤ c ∧ c ≤ 70 then some (c.toNat - 55)
  else none

theorem unhex_int2hex : ∀ x < 16, unhex (int2hex x) = some x := by decide

theorem hex2int_unhex {c : UInt8} {n : ℕ} (h : unhex c = some n) : (hex2int c).toNat = n := by
  have hall : ∀ c < 256, ∀ n ∈ unhex c.toUInt8, (hex2int c.toUInt8).toNat = n := by
    decide +kernel
  have hc := hall c.toNat c.toNat_lt n
  rw [Nat.toUInt8, UInt8.ofNat_toNat] at hc
  exact hc h

theorem hash_notMem_encodeString (buffer : CString) : hashMark ∉ encodeString buffer := by
  induction buffer with
  | nil => exact List.not_mem_nil
  | cons b buffer ih =>
    rw [encodeString, hexEncodeFirstByte_eq, hexEncodeSecondByte_eq]
    intro h
    obtain h | h := List.mem_cons.mp h
    · exact int2hex_ne_hash _ (Nat.mod_lt _ (by omega)) h.symm
    · obtain h | h := List.mem_cons.mp h
      · exact int2hex_ne_hash _ (Nat.mod_lt _ (by omega)) h.symm
      · exact ih h

end Hex

section Checksums

def sum : List UInt8 → ℕ
  | [] => 0
  | b :: bytes => b.toNat + sum bytes

theorem toNat_charToUInt32 (c : UInt8) : (charToUInt32 c).toNat % 256 = c.toNat := by
  have hc : c.toNat < 256 := c.toNat_lt
  rw [charToUInt32]
  split
  · rw [UInt8.toNat_toUInt32]
    omega
  · rw [UInt32.toNat_sub, UInt8.toNat_toUInt32]
    change (2 ^ 32 - 256 + c.toNat) % 2 ^ 32 % 256 = c.toNat
    omega

theorem checksum_append (bs : List UInt8) (c : UInt32) :
    (bs.foldl (fun checksum b => checksum + charToUInt32 b) c).toNat % 256 =
      (c.toNat + sum bs) % 256 := by
  induction bs generalizing c with
  | nil => rfl
  | cons b bs ih =>
    have hb := toNat_charToUInt32 b
    rw [List.foldl_cons, ih, sum, UInt32.toNat_add]
    omega

theorem checksum_sum (bs : List UInt8) :
    (getChecksumForBuffer bs).toNat % 256 = sum bs % 256 := by
  rw [getChecksumForBuffer, checksum_append]
  change (0 + sum bs) % 256 = _
  rw [Nat.zero_add]

/-- A packet of the remote protocol: what it holds, between its prefix and two digits of the
checksum. -/
structure Framed (p f : List UInt8) : Prop where
  free : hashMark ∉ p
  digits : ∃ x y, f = dollar :: (p ++ [hashMark, x, y]) ∧
    unhex x = some (sum p / 16 % 16) ∧ unhex y = some (sum p % 16)

theorem take_payload (d : UInt8) (p : List UInt8) (x y z : UInt8) :
    ((d :: (p ++ [x, y, z])).drop 1).take ((d :: (p ++ [x, y, z])).length - 4) = p := by
  have hlen : (d :: (p ++ [x, y, z])).length - 4 = p.length := by
    rw [List.length_cons, List.length_append]
    rfl
  rw [List.drop_one, List.tail_cons, hlen, List.take_left]

theorem responseIsChecksumValid_iff {p : List UInt8} {x y : UInt8} :
    responseIsChecksumValid (dollar :: (p ++ [hashMark, x, y])) = true ↔
      (hex2int x).toNat = sum p / 16 % 16 ∧ (hex2int y).toNat = sum p % 16 := by
  have hlen : (dollar :: (p ++ [hashMark, x, y])).length = p.length + 4 := by
    rw [List.length_cons, List.length_append]
    rfl
  have hx : (dollar :: (p ++ [hashMark, x, y])).getD (p.length + 4 - 2) 0 = x := by
    rw [List.getD_eq_getElem?_getD, show p.length + 4 - 2 = p.length + 1 + 1 from rfl,
      List.getElem?_cons_succ, List.getElem?_append_right (by omega), Nat.add_sub_cancel_left]
    rfl
  have hy : (dollar :: (p ++ [hashMark, x, y])).getD (p.length + 4 - 1) 0 = y := by
    rw [List.getD_eq_getElem?_getD, show p.length + 4 - 1 = p.length + 2 + 1 from rfl,
      List.getElem?_cons_succ, List.getElem?_append_right (by omega), Nat.add_sub_cancel_left]
    rfl
  have hsum : (if 0 < p.length + 4 - 4 then getChecksumForBuffer p else 0).toNat % 256 =
      sum p % 256 := by
    cases p with
    | nil => rfl
    | cons b p => exact checksum_sum (b :: p)
  have htake := take_payload dollar p hashMark x y
  rw [hlen] at htake
  rw [responseIsChecksumValid]
  simp only [hlen, htake, hx, hy, shiftRight_four, and_fifteen, Bool.and_eq_true,
    decide_eq_true_eq]
  generalize (if 0 < p.length + 4 - 4 then getChecksumForBuffer p else 0).toNat = n at hsum
  have h₁ : n / 16 % 16 = sum p / 16 % 16 := by omega
  have h₂ : n % 16 = sum p % 16 := by omega
  rw [h₁, h₂]

end Checksums

section Receiving

variable {client : Client} {arrivals : List Arrival} {b : UInt8} {p f bs buffer : List UInt8}

def bytesOf (arrivals : List Arrival) : List UInt8 :=
  arrivals.filterMap fun
    | .byte b => some b
    | .nothing _ _ => none

/-- The bytes arrive, with pauses that the client waits through. -/
structure Carries (client : Client) (arrivals : List Arrival) (bs : List UInt8) : Prop where
  bytes : bytesOf arrivals = bs
  patient : ∀ res cancelled, .nothing res cancelled ∈ arrivals →
    res = .timeout ∧ client.cancelReceive = true ∧ cancelled = false

def pause : Arrival := .nothing .timeout false

/-- The bytes, each after its number of pauses. -/
def arrive : List ℕ → List UInt8 → List Arrival
  | _, [] => []
  | [], b :: bs => .byte b :: arrive [] bs
  | n :: pauses, b :: bs => List.replicate n pause ++ .byte b :: arrive pauses bs

theorem bytesOf_append (as bs : List Arrival) :
    bytesOf (as ++ bs) = bytesOf as ++ bytesOf bs := List.filterMap_append

theorem bytesOf_replicate (n : ℕ) : bytesOf (List.replicate n pause) = [] := by
  induction n with
  | zero => rfl
  | succ n ih => exact ih

theorem bytesOf_arrive (pauses : List ℕ) (bs : List UInt8) : bytesOf (arrive pauses bs) = bs := by
  induction bs generalizing pauses with
  | nil => cases pauses <;> rfl
  | cons b bs ih =>
    cases pauses with
    | nil => exact congrArg (b :: ·) (ih [])
    | cons n pauses =>
      rw [arrive, bytesOf_append, bytesOf_replicate, List.nil_append]
      exact congrArg (b :: ·) (ih pauses)

theorem nothing_mem_arrive {pauses : List ℕ} {bs : List UInt8} {res : Error} {cancelled : Bool}
    (h : .nothing res cancelled ∈ arrive pauses bs) :
    .nothing res cancelled = pause ∧ pauses ≠ [] := by
  induction bs generalizing pauses with
  | nil => cases pauses <;> cases h
  | cons b bs ih =>
    cases pauses with
    | nil =>
      obtain h | h := List.mem_cons.mp h
      · cases h
      · exact absurd rfl (ih h).2
    | cons n pauses =>
      refine ⟨?_, List.cons_ne_nil n pauses⟩
      obtain h | h := List.mem_append.mp h
      · exact List.eq_of_mem_replicate h
      · obtain h | h := List.mem_cons.mp h
        · cases h
        · exact (ih h).1

theorem carries_arrive {client : Client} {pauses : List ℕ} (bs : List UInt8)
    (h : client.cancelReceive = true ∨ pauses = []) :
    Carries client (arrive pauses bs) bs where
  bytes := bytesOf_arrive pauses bs
  patient res cancelled hm := by
    obtain ⟨hp, hne⟩ := nothing_mem_arrive hm
    cases hp
    exact ⟨rfl, h.resolve_right hne, rfl⟩

theorem Carries.tail {a : Arrival} (h : Carries client (a :: arrivals) bs) :
    Carries client arrivals (bytesOf arrivals) :=
  ⟨rfl, fun res cancelled hm => h.patient res cancelled (List.mem_cons_of_mem a hm)⟩

theorem receive_spec (h : Carries client arrivals (b :: bs)) :
    ∃ rest, receive client arrivals = some (.success, some b, rest) ∧ Carries client rest bs := by
  induction arrivals with
  | nil => cases h.bytes
  | cons a arrivals ih =>
    cases a with
    | byte c =>
      obtain ⟨hc, hbs⟩ := List.cons_eq_cons.mp h.bytes
      refine ⟨arrivals, ?_, ?_⟩
      · rw [receive, hc]
      · rw [← hbs]
        exact h.tail
    | nothing res cancelled =>
      obtain ⟨rest, hr, hc⟩ := ih ⟨h.bytes, h.tail.patient⟩
      obtain ⟨hres, hset, hcan⟩ := h.patient res cancelled List.mem_cons_self
      refine ⟨rest, ?_, hc⟩
      rw [receive, if_pos ⟨hres, hset, by rw [hcan]; exact Bool.false_ne_true⟩, hr]

theorem receiveInternalChar_spec (h : Carries client arrivals (b :: bs)) :
    ∃ rest, receiveInternalChar client arrivals = some (.ok b, rest) ∧ Carries client rest bs := by
  obtain ⟨rest, hr, hc⟩ := receive_spec h
  refine ⟨rest, ?_, hc⟩
  rw [receiveInternalChar, hr]

theorem receiveStart_dollar (h : Carries client arrivals (dollar :: bs)) :
    ∃ rest, receiveStart client arrivals = some (.ok (), rest) ∧ Carries client rest bs := by
  obtain ⟨rest, hr, hc⟩ := receiveInternalChar_spec h
  refine ⟨rest, ?_, hc⟩
  simp only [receiveStart, hr, if_true]

theorem receiveUntilChecksum_step (n : ℕ) (receiving : Bool) (buffer : List UInt8)
    (h : Carries client arrivals (b :: bs)) :
    ∃ rest, receiveUntilChecksum client (n + 1) receiving buffer arrivals =
        receiveUntilChecksum client (if receiving || b = hashMark then n else n + 1)
          (receiving || b = hashMark) (buffer ++ [b]) rest ∧
      Carries client rest bs := by
  obtain ⟨rest, hr, hc⟩ := receiveInternalChar_spec h
  refine ⟨rest, ?_, hc⟩
  rw [receiveUntilChecksum, if_neg (Nat.succ_ne_zero n)]
  split
  · rename_i hn
    rw [hr] at hn
    cases hn
  · rename_i hn
    rw [hr] at hn
    cases hn
  · rename_i hn
    rw [hr] at hn
    cases hn
    rfl

theorem receiveUntilChecksum_zero {receiving : Bool} :
    receiveUntilChecksum client 0 receiving buffer arrivals = some (.ok buffer, arrivals) := by
  rw [receiveUntilChecksum, if_pos rfl]

theorem receiveUntilChecksum_spec {x y : UInt8} (buffer : List UInt8) (hp : hashMark ∉ p)
    (h : Carries client arrivals (p ++ hashMark :: x :: y :: bs)) :
    ∃ rest, receiveUntilChecksum client 3 false buffer arrivals =
        some (.ok (buffer ++ (p ++ [hashMark, x, y])), rest) ∧ Carries client rest bs := by
  induction p generalizing buffer arrivals with
  | nil =>
    obtain ⟨r₁, h₁, c₁⟩ := receiveUntilChecksum_step 2 false buffer h
    obtain ⟨r₂, h₂, c₂⟩ := receiveUntilChecksum_step 1 true (buffer ++ [hashMark]) c₁
    obtain ⟨r₃, h₃, c₃⟩ := receiveUntilChecksum_step 0 true (buffer ++ [hashMark] ++ [x]) c₂
    refine ⟨r₃, ?_, c₃⟩
    rw [h₁]
    simp only [Bool.false_or, decide_true, if_true]
    rw [h₂]
    simp only [Bool.true_or, if_true]
    rw [h₃]
    simp only [Bool.true_or, if_true, receiveUntilChecksum_zero, List.append_assoc,
      List.nil_append, List.cons_append]
  | cons b p ih =>
    have hb : b ≠ hashMark := fun hb => hp (hb ▸ List.mem_cons_self)
    obtain ⟨r₁, h₁, c₁⟩ := receiveUntilChecksum_step 2 false buffer h
    obtain ⟨rest, hr, hc⟩ := ih (buffer ++ [b])
      (fun hm => hp (List.mem_cons_of_mem b hm)) c₁
    refine ⟨rest, ?_, hc⟩
    rw [h₁]
    simp only [Bool.false_or, decide_eq_false hb, Bool.false_eq_true, if_false]
    rw [hr, List.append_assoc, List.singleton_append, List.cons_append]

end Receiving

section Responses

variable {client : Client} {arrivals : List Arrival} {p f bs : List UInt8}

theorem receiveResponse_framed (hf : Framed p f) {a rest₀ : List Arrival}
    {s : List UInt8}
    (hpre : receivePrefix client a = some (.ok (), rest₀))
    (hc : Carries client rest₀ (f.drop 1 ++ bs))
    (hs : (if client.noackMode then [] else [ackMark]) = s) :
    ∃ rest, receiveResponse client a = some ⟨.success, some p, s, rest⟩ ∧
      Carries client rest bs := by
  obtain ⟨x, y, rfl, hx, hy⟩ := hf.digits
  rw [List.drop_one, List.tail_cons, List.append_assoc] at hc
  obtain ⟨rest, hr, hrest⟩ := receiveUntilChecksum_spec [dollar] hf.free hc
  refine ⟨rest, ?_, hrest⟩
  have hvalid := responseIsChecksumValid_iff.mpr ⟨hex2int_unhex hx, hex2int_unhex hy⟩
  simp only [receiveResponse, hpre, hr, List.singleton_append, hvalid, or_true, if_true, hs,
    take_payload]

theorem receiveResponse_noack (hn : client.noackMode = true) (hf : Framed p f)
    (h : Carries client arrivals (f ++ bs)) :
    ∃ rest, receiveResponse client arrivals = some ⟨.success, some p, [], rest⟩ ∧
      Carries client rest bs := by
  have hf' := hf
  obtain ⟨x, y, rfl, -, -⟩ := hf'.digits
  obtain ⟨rest, hr, hc⟩ := receiveStart_dollar h
  refine receiveResponse_framed hf ?_ hc ?_
  · rw [receivePrefix, if_pos hn, hr]
  · rw [if_pos hn]

theorem receiveResponse_ack (hn : client.noackMode = false) (hf : Framed p f)
    (h : Carries client arrivals (ackMark :: f ++ bs)) :
    ∃ rest, receiveResponse client arrivals = some ⟨.success, some p, [ackMark], rest⟩ ∧
      Carries client rest bs := by
  have hf' := hf
  obtain ⟨x, y, rfl, -, -⟩ := hf'.digits
  obtain ⟨r₁, h₁, c₁⟩ := receiveInternalChar_spec h
  obtain ⟨rest, hr, hc⟩ := receiveStart_dollar c₁
  refine receiveResponse_framed hf ?_ hc ?_
  · rw [receivePrefix, if_neg (by rw [hn]; exact Bool.false_ne_true)]
    simp only [h₁, if_true, hr]
  · rw [if_neg (by rw [hn]; exact Bool.false_ne_true)]

theorem receiveResponse_spec (hf : Framed p f)
    (h : Carries client arrivals ((if client.noackMode then [] else [ackMark]) ++ f ++ bs)) :
    ∃ rest, receiveResponse client arrivals =
        some ⟨.success, some p, if client.noackMode then [] else [ackMark], rest⟩ ∧
      Carries client rest bs := by
  cases hn : client.noackMode with
  | true =>
    rw [hn] at h
    exact receiveResponse_noack hn hf h
  | false =>
    rw [hn] at h
    exact receiveResponse_ack hn hf h

end Responses

end UnBoxer.DebugPackets
