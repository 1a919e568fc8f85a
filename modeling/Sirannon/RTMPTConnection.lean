import Sirannon.ByteMemory
import Sirannon.HTTPSafety

/-!
# RTMPT connections

A media session reads and writes two buffers in memory; the server fills the
one with the contents of requests and empties the other into the replies. Each
operation holds the lock of the connection from its start to its end.
-/

set_option autoImplicit false

namespace Sirannon.RTMPT
open ByteMemory Bits MachineInt HTTP Connection

def MAX_HTTP_SIZE : ℕ := 16*1024*1024

def HTTP_REPLY_SIZE : ℕ := 1024

/-- Pointers are offsets into their buffers; both buffers are used from `HTTP_REPLY_SIZE` on. -/
structure RTMPTConnection where
  priv_buffer_in : Memory
  priv_buffer_out : Memory
  offset_in : ℕ
  current_in : ℕ
  offset_out : ℕ
  terminateExternal : Bool
  terminateInternal : Bool

namespace RTMPTConnection

def new : RTMPTConnection where
  priv_buffer_in := zeroed
  priv_buffer_out := zeroed
  offset_in := HTTP_REPLY_SIZE
  current_in := HTTP_REPLY_SIZE
  offset_out := HTTP_REPLY_SIZE
  terminateExternal := false
  terminateInternal := false

def terminated (c : RTMPTConnection) : Bool := c.terminateExternal || c.terminateInternal

/-! ## The session -/

def send (c : RTMPTConnection) (pData : Bytes) : ℤ × RTMPTConnection :=
  if c.terminated then (-1, c)
  else if MAX_HTTP_SIZE < c.offset_out+pData.length then (-1, c)
  else (pData.length, { c with
    priv_buffer_out := store c.priv_buffer_out c.offset_out pData
    offset_out := c.offset_out+pData.length })

/-- The status, and the bytes copied. -/
def receive (c : RTMPTConnection) (iSize : ℕ) : ℤ × Bytes × RTMPTConnection :=
  let iCurrent := c.offset_in-c.current_in
  if c.terminated then (-1, [], c)
  else if iCurrent = 0 then (-2, [], c)
  else
    let iPayload := min iSize iCurrent
    (iPayload, load c.priv_buffer_in c.current_in iPayload,
      { c with current_in := c.current_in+iPayload })

/-! ## The server -/

inductive Mode
  | IDLE | SEND
  deriving DecidableEq, Repr

/-- What is left to read goes back to the start of the buffer. -/
def compacted (c : RTMPTConnection) : RTMPTConnection :=
  if c.current_in ≤ c.offset_in then
    { c with
      priv_buffer_in := store c.priv_buffer_in HTTP_REPLY_SIZE
        (load c.priv_buffer_in c.current_in (c.offset_in-c.current_in))
      offset_in := c.offset_in-(c.current_in-HTTP_REPLY_SIZE)
      current_in := HTTP_REPLY_SIZE }
  else c

/-- The length is compared as a signed number and copied as an unsigned one. -/
def roomFor (c : RTMPTConnection) (iContent : ℤ) : Prop :=
  iContent ≤ (MAX_HTTP_SIZE : ℤ)-c.offset_in

instance (c : RTMPTConnection) (iContent : ℤ) : Decidable (c.roomFor iContent) :=
  inferInstanceAs (Decidable (_ ≤ _))

/-- A copy from or to somewhere outside the buffers is undefined. -/
def copied (c : RTMPTConnection) (pHTTP : HTTPConnection) :
    Except SirannonException RTMPTConnection :=
  if pHTTP.iHeader+pHTTP.iContent ≤ iBuffer ∧ c.offset_in+pHTTP.iContent ≤ MAX_HTTP_SIZE then
    .ok { c with
      priv_buffer_in := store c.priv_buffer_in c.offset_in pHTTP.content
      offset_in := c.offset_in+pHTTP.iContent }
  else .error (undefinedBehaviour "memcpy outside the buffers")

/-- The content of a request in mode `SEND`, unless there is no room for it. -/
def accept (c : RTMPTConnection) (iMode : Mode) (pHTTP : HTTPConnection) :
    Except SirannonException (Bool × RTMPTConnection) :=
  match iMode with
  | .IDLE => .ok (true, c)
  | .SEND =>
    if c.compacted.roomFor (int32 pHTTP.iContent) then
      match c.compacted.copied pHTTP with
      | .ok c => .ok (true, c)
      | .error e => .error e
    else .ok (false, c.compacted)

def mFields : Fields :=
  [("Cache-Control", "no-cache"), ("Connection", "Keep-Alive"),
    ("Content-Type", "application/x-fcs"), ("Server", "Sirannon")].map
      fun f => (HTTPConnection.ascii f.1, HTTPConnection.ascii f.2)

/-- With the byte in front of the output that every reply begins with. -/
def marked (c : RTMPTConnection) : RTMPTConnection :=
  { c with priv_buffer_out := store c.priv_buffer_out (HTTP_REPLY_SIZE-1) [1] }

def reply (c : RTMPTConnection) : Bytes :=
  load c.marked.priv_buffer_out (HTTP_REPLY_SIZE-1) (c.offset_out-HTTP_REPLY_SIZE+1)

/-- The part of `parseHTTPRequest` that holds the lock, with the message received. -/
def handle (c : RTMPTConnection) (iMode : Mode) (pHTTP : HTTPConnection) :
    Except SirannonException (ℤ × HTTPConnection × RTMPTConnection) :=
  match c.accept iMode pHTTP with
  | .error e => .error e
  | .ok (false, c) => .ok (-1, pHTTP, c)
  | .ok (true, c) =>
    match pHTTP.sendReply 200 "OK" c.reply mFields with
    | (.error e, _) => .error e
    | (.ok iStatus, pHTTP) =>
      if iStatus < 0 then .ok (-1, pHTTP, c.marked)
      else .ok (0, pHTTP, { c.marked with offset_out := HTTP_REPLY_SIZE })

end RTMPTConnection

end Sirannon.RTMPT
