import Mathlib.Data.List.Basic
import Mathlib.Tactic.Common

namespace UnBoxer.Debugserver

inductive Error
  | success | invalidArg | muxError | sslError | responseError | timeout | unknownError
  deriving DecidableEq

/-- A C string: the bytes before its terminator. -/
abbrev CString := List UInt8

def ofAscii (s : String) : CString := s.toList.map fun c => c.toNat.toUInt8

def ackMark : UInt8 := 43

def noackMark : UInt8 := 45

def dollar : UInt8 := 36

def hashMark : UInt8 := 35

section Hex

def hex2int (c : UInt8) : UInt8 :=
  if 48 ≤ c ∧ c ≤ 57 then c - 48
  else if 97 ≤ c ∧ c ≤ 102 then 10 + c - 97
  else if 65 ≤ c ∧ c ≤ 70 then 10 + c - 65
  else c

def hexchars : List UInt8 := ofAscii "0123456789ABCDEF"

def int2hex (x : ℕ) : UInt8 := hexchars.getD x 0

def hexEncodeFirstByte (byte : ℕ) : UInt8 := int2hex ((byte >>> 4) &&& 0xf)

def hexEncodeSecondByte (byte : ℕ) : UInt8 := int2hex (byte &&& 0xf)

def encodeString : CString → CString
  | [] => []
  | b :: buffer =>
    hexEncodeFirstByte b.toNat :: hexEncodeSecondByte b.toNat :: encodeString buffer

def charToUInt32 (c : UInt8) : UInt32 := if c < 128 then c.toUInt32 else c.toUInt32 - 256

def getChecksumForBuffer (buffer : List UInt8) : UInt32 :=
  buffer.foldl (fun checksum b => checksum + charToUInt32 b) 0

/-- `debugserver_response_is_checksum_valid`, of a response of at least four bytes. -/
def responseIsChecksumValid (response : List UInt8) : Bool :=
  let size := response.length
  let checksum := if 0 < size - 4 then getChecksumForBuffer ((response.drop 1).take (size - 4))
    else 0
  (hex2int (response.getD (size - 2) 0)).toNat = ((checksum.toNat >>> 4) &&& 0xf) &&
    (hex2int (response.getD (size - 1) 0)).toNat = (checksum.toNat &&& 0xf)

end Hex

section Commands

structure Command where
  name : CString
  argv : List CString

/-- `debugserver_format_command` with the prefix `$`, where it computes the checksum. -/
def formatCommand (command : CString) (arguments : Option CString) : List UInt8 :=
  let encodedCommand := command ++ (arguments.map encodeString).getD []
  let checksum := getChecksumForBuffer encodedCommand
  [dollar] ++ encodedCommand ++
    [hashMark, hexEncodeFirstByte checksum.toNat, hexEncodeSecondByte checksum.toNat]

def commandArguments (argv : List CString) : Option CString :=
  argv.foldl (fun arguments arg => some (arguments.getD [] ++ arg)) none

end Commands

section Client

/-- `debugserver_client_private`; of `cancel_receive`, whether it is set. -/
structure Client where
  noackMode : Bool
  cancelReceive : Bool
  deriving DecidableEq

/-- What an attempt to receive one byte ends in: a byte, or none and an error, after which
`cancel_receive`, if it is asked, cancels or not. -/
inductive Arrival
  | byte (b : UInt8)
  | nothing (res : Error) (cancelled : Bool)

/-- `debugserver_client_receive` for one byte; it has not returned when no more arrives. -/
def receive (client : Client) : List Arrival → Option (Error × Option UInt8 × List Arrival)
  | [] => none
  | .byte b :: rest => some (.success, some b, rest)
  | .nothing res cancelled :: rest =>
    if res = .timeout ∧ client.cancelReceive ∧ ¬ cancelled then receive client rest
    else some (res, none, rest)

def receiveInternalChar (client : Client) (arrivals : List Arrival) :
    Option (Except Error UInt8 × List Arrival) :=
  match receive client arrivals with
  | none => none
  | some (.success, some b, rest) => some (.ok b, rest)
  | some (.success, none, rest) => some (.error .unknownError, rest)
  | some (res, _, rest) => some (.error res, rest)

theorem receive_length {client : Client} {arrivals rest : List Arrival} {res : Error}
    {b : Option UInt8} (h : receive client arrivals = some (res, b, rest)) :
    rest.length < arrivals.length := by
  induction arrivals with
  | nil => cases h
  | cons a arrivals ih =>
    cases a with
    | byte b =>
      cases h
      exact Nat.lt_succ_self _
    | nothing res cancelled =>
      rw [receive] at h
      split at h
      · exact Nat.lt_succ_of_lt (ih h)
      · cases h
        exact Nat.lt_succ_self _

theorem receiveInternalChar_length {client : Client} {arrivals rest : List Arrival}
    {r : Except Error UInt8} (h : receiveInternalChar client arrivals = some (r, rest)) :
    rest.length < arrivals.length := by
  rw [receiveInternalChar] at h
  cases hr : receive client arrivals with
  | none =>
    rw [hr] at h
    cases h
  | some o =>
    obtain ⟨res, b, rest'⟩ := o
    have hlt := receive_length hr
    have hrest : rest' = rest := by
      rw [hr] at h
      cases res <;> cases b <;> cases h <;> rfl
    rw [← hrest]
    exact hlt

/-- The wait for `$`; an error of `success` stands for a way to `cleanup` without one. -/
def receiveStart (client : Client) (arrivals : List Arrival) :
    Option (Except Error Unit × List Arrival) :=
  match receiveInternalChar client arrivals with
  | none => none
  | some (.error e, rest) => some (.error e, rest)
  | some (.ok data, rest) =>
    if data = dollar then some (.ok (), rest) else some (.error .success, rest)

/-- The start of `debugserver_client_receive_response`, up to the prefix. -/
def receivePrefix (client : Client) (arrivals : List Arrival) :
    Option (Except Error Unit × List Arrival) :=
  if client.noackMode then receiveStart client arrivals
  else
    match receiveInternalChar client arrivals with
    | none => none
    | some (.error e, rest) => some (.error e, rest)
    | some (.ok data, rest) =>
      if data = ackMark then receiveStart client rest
      else if data = dollar then some (.ok (), rest)
      else some (.error .success, rest)

/-- The loop of `debugserver_client_receive_response`, up to the last byte of the checksum. -/
def receiveUntilChecksum (client : Client) (checksumLength : ℕ) (receiving : Bool)
    (buffer : List UInt8) (arrivals : List Arrival) :
    Option (Except Error (List UInt8) × List Arrival) :=
  if checksumLength = 0 then some (.ok buffer, arrivals)
  else
    match _h : receiveInternalChar client arrivals with
    | none => none
    | some (.error e, rest) => some (.error e, rest)
    | some (.ok data, rest) =>
      let receiving := receiving || data = hashMark
      receiveUntilChecksum client (if receiving then checksumLength - 1 else checksumLength)
        receiving (buffer ++ [data]) rest
  termination_by arrivals.length
  decreasing_by exact receiveInternalChar_length _h

/-- What a call returns: its error, the response, what it has sent, and what still arrives. -/
structure Outcome where
  res : Error
  response : Option CString
  sent : List UInt8
  rest : List Arrival

def receiveResponse (client : Client) (arrivals : List Arrival) : Option Outcome :=
  match receivePrefix client arrivals with
  | none => none
  | some (.error e, rest) => some ⟨e, none, [], rest⟩
  | some (.ok (), rest) =>
    match receiveUntilChecksum client 3 false [dollar] rest with
    | none => none
    | some (.error e, rest) => some ⟨e, none, [], rest⟩
    | some (.ok buffer, rest) =>
      if client.noackMode ∨ responseIsChecksumValid buffer then
        some ⟨.success, some ((buffer.drop 1).take (buffer.length - 4)),
          if client.noackMode then [] else [ackMark], rest⟩
      else
        some ⟨.responseError, none, if client.noackMode then [] else [noackMark], rest⟩

def setAckMode (client : Client) (enabled : Bool) : Client :=
  { client with noackMode := !enabled }

def startNoAckMode : CString := ofAscii "QStartNoAckMode"

/-- What becomes of a packet that is sent: all of it goes out, or some of it and an error
comes back. -/
inductive Sending
  | all
  | fails (res : Error) (bytes : ℕ)

def sendCommand (client : Client) (command : Command) (sending : Sending)
    (arrivals : List Arrival) : Option (Outcome × Client) :=
  let sendBuffer := formatCommand command.name (commandArguments command.argv)
  match sending with
  | .fails res bytes => some (⟨res, none, sendBuffer.take bytes, arrivals⟩, client)
  | .all =>
    match receiveResponse client arrivals with
    | none => none
    | some r =>
      let outcome := { r with sent := sendBuffer ++ r.sent }
      if r.res ≠ .success then some (outcome, client)
      else if command.name = startNoAckMode then some (outcome, setAckMode client false)
      else some (outcome, client)

end Client

section Argv

def decimal (n : ℕ) : CString := (Nat.toDigits 10 n).map fun c => c.toNat.toUInt8

end Argv

end UnBoxer.Debugserver
