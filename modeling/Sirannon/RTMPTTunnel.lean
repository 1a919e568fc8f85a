import Sirannon.RTMPTConnection

/-!
# The tunnel as two streams

Whatever the order in which requests are handled and the session reads and
writes, bytes go through the tunnel in the order they came. Two things break
it: a request whose length is negative, and a reply that the socket does not
take to its end, since that is not noticed.
-/

set_option autoImplicit false

namespace Sirannon.RTMPT
open ByteMemory Bits MachineInt HTTP Connection

namespace RTMPTConnection

/-! ## Steps -/

/-- A message as a call to receive one leaves it, on a socket of the server. -/
structure Posted where
  pHTTP : HTTPConnection
  header : pHTTP.iHeader ≤ pHTTP.iOffset
  content : pHTTP.iContent < 2^32
  message : pHTTP.iMessage = (pHTTP.iHeader+pHTTP.iContent)%2^32
  offset : pHTTP.iMessage ≤ pHTTP.iOffset
  buffer : pHTTP.iOffset ≤ iBuffer
  throwing : pHTTP.pConnection.bThrow = false

inductive Op
  | post (iMode : Mode) (p : Posted)
  | receive (iSize : ℕ)
  | send (pData : Bytes)
  | terminateExternal
  | terminateInternal

/-- With what has gone in and come out on both sides. -/
structure Tunnel where
  conn : RTMPTConnection
  posted : Bytes
  taken : Bytes
  sent : Bytes
  replied : Bytes

def Tunnel.new : Tunnel := ⟨RTMPTConnection.new, [], [], [], []⟩

/-- The header of the reply goes out first. -/
def headerSent (c : RTMPTConnection) (pHTTP : HTTPConnection) : ConnectionInterface :=
  (sendSmart pHTTP.pConnection (pHTTP.replyHeader 200 "OK" c.reply.length mFields)).2

/-- What of the reply the socket takes. -/
def delivered (c : RTMPTConnection) (pHTTP : HTTPConnection) : Bytes :=
  (sendSmart (c.headerSent pHTTP) c.reply).2.out.drop (c.headerSent pHTTP).out.length

def postedBy (iMode : Mode) (p : Posted) : Bytes :=
  match iMode with
  | .IDLE => []
  | .SEND => p.pHTTP.content

def Tunnel.post (t : Tunnel) (iMode : Mode) (p : Posted) : Except SirannonException Tunnel :=
  match t.conn.handle iMode p.pHTTP, t.conn.accept iMode p.pHTTP with
  | .ok (_, _, conn), .ok (true, c) =>
    .ok { t with
      conn := conn
      posted := t.posted ++ postedBy iMode p
      replied := t.replied ++ (c.delivered p.pHTTP).drop 1 }
  | .ok (_, _, conn), _ => .ok { t with conn := conn }
  | .error e, _ => .error e

def Tunnel.step (t : Tunnel) : Op → Except SirannonException Tunnel
  | .post iMode p => t.post iMode p
  | .receive iSize =>
    let (_, pData, conn) := t.conn.receive iSize
    .ok { t with conn := conn, taken := t.taken ++ pData }
  | .send pData =>
    let (iStatus, conn) := t.conn.send pData
    .ok { t with conn := conn, sent := if 0 ≤ iStatus then t.sent ++ pData else t.sent }
  | .terminateExternal => .ok { t with conn := { t.conn with terminateExternal := true } }
  | .terminateInternal => .ok { t with conn := { t.conn with terminateInternal := true } }

def Tunnel.run (t : Tunnel) : List Op → Except SirannonException Tunnel
  | [] => .ok t
  | op::ops =>
    match t.step op with
    | .error e => .error e
    | .ok t' => t'.run ops

/-! ## What is in the buffers -/

def waitingIn (c : RTMPTConnection) : Bytes :=
  load c.priv_buffer_in c.current_in (c.offset_in-c.current_in)

def waitingOut (c : RTMPTConnection) : Bytes :=
  load c.priv_buffer_out HTTP_REPLY_SIZE (c.offset_out-HTTP_REPLY_SIZE)

structure Pointers (c : RTMPTConnection) : Prop where
  current_in : HTTP_REPLY_SIZE ≤ c.current_in
  offset_in : c.current_in ≤ c.offset_in
  end_in : c.offset_in ≤ MAX_HTTP_SIZE
  offset_out : HTTP_REPLY_SIZE ≤ c.offset_out
  end_out : c.offset_out ≤ MAX_HTTP_SIZE

structure Accounted (t : Tunnel) : Prop where
  pointers : Pointers t.conn
  input : t.posted = t.taken ++ waitingIn t.conn
  output : t.sent = t.replied ++ waitingOut t.conn

variable {c : RTMPTConnection} {t : Tunnel}

theorem load_store_append (m : Memory) (off n : ℕ) (bs : Bytes) :
    load (store m (off+n) bs) off (n+bs.length) = load m off n ++ bs := by
  rw [load_add, load_store_below _ _ _ _ _ le_rfl, load_store]

/-! ## The session -/

theorem send_accounted (h : Accounted t) (pData : Bytes) :
    Accounted { t with
      conn := (t.conn.send pData).2
      sent := if 0 ≤ (t.conn.send pData).1 then t.sent ++ pData else t.sent } := by
  rw [send]
  by_cases hterminated : t.conn.terminated = true
  · rw [if_pos hterminated, if_neg (show ¬ (0 : ℤ) ≤ -1 by decide)]
    exact h
  · rw [if_neg hterminated]
    by_cases hfull : MAX_HTTP_SIZE < t.conn.offset_out+pData.length
    · rw [if_pos hfull, if_neg (show ¬ (0 : ℤ) ≤ -1 by decide)]
      exact h
    · have hpointers := h.pointers
      have hout := hpointers.offset_out
      rw [if_neg hfull, if_pos (Int.natCast_nonneg _)]
      refine ⟨⟨hpointers.current_in, hpointers.offset_in, hpointers.end_in, ?_, ?_⟩, h.input, ?_⟩
      · exact hout.trans (Nat.le_add_right _ _)
      · exact Nat.le_of_not_lt hfull
      · have hlength : t.conn.offset_out+pData.length-HTTP_REPLY_SIZE =
            t.conn.offset_out-HTTP_REPLY_SIZE+pData.length := Nat.sub_add_comm hout
        show t.sent ++ pData = t.replied ++ load (store _ t.conn.offset_out pData) _ _
        have hextend := load_store_append t.conn.priv_buffer_out HTTP_REPLY_SIZE
          (t.conn.offset_out-HTTP_REPLY_SIZE) pData
        rw [Nat.add_sub_cancel' hout] at hextend
        rw [hlength, h.output, waitingOut, List.append_assoc, hextend]

theorem receive_accounted (h : Accounted t) (iSize : ℕ) :
    Accounted { t with
      conn := (t.conn.receive iSize).2.2
      taken := t.taken ++ (t.conn.receive iSize).2.1 } := by
  rw [receive]
  dsimp only
  by_cases hterminated : t.conn.terminated = true
  · rw [if_pos hterminated, List.append_nil]
    exact h
  · rw [if_neg hterminated]
    by_cases hempty : t.conn.offset_in-t.conn.current_in = 0
    · rw [if_pos hempty, List.append_nil]
      exact h
    · have hpointers := h.pointers
      have hcurrent := hpointers.current_in
      have hoffset := hpointers.offset_in
      have hmin := Nat.min_le_right iSize (t.conn.offset_in-t.conn.current_in)
      rw [if_neg hempty]
      refine ⟨⟨?_, ?_, hpointers.end_in, hpointers.offset_out, hpointers.end_out⟩, ?_, h.output⟩
      · exact hcurrent.trans (Nat.le_add_right _ _)
      · show t.conn.current_in+min _ _ ≤ t.conn.offset_in
        omega
      · show t.posted = t.taken ++ load _ _ (min _ _) ++
          load _ (t.conn.current_in+min _ _) (t.conn.offset_in-(t.conn.current_in+min _ _))
        rw [h.input, waitingIn, List.append_assoc, ← load_add]
        congr 2
        omega

/-! ## The content of a request -/

theorem compacted_waiting (h : Pointers c) : c.compacted.waitingIn = c.waitingIn := by
  have hcurrent := h.current_in
  have hoffset := h.offset_in
  have hlength : c.offset_in-(c.current_in-HTTP_REPLY_SIZE)-HTTP_REPLY_SIZE =
      (load c.priv_buffer_in c.current_in (c.offset_in-c.current_in)).length := by
    rw [load_length]
    omega
  rw [compacted, if_pos hoffset, waitingIn]
  dsimp only
  rw [hlength, load_store, waitingIn]

theorem compacted_pointers (h : Pointers c) : Pointers c.compacted := by
  have hcurrent := h.current_in
  have hoffset := h.offset_in
  have hend := h.end_in
  rw [compacted, if_pos hoffset]
  refine ⟨Nat.le_refl HTTP_REPLY_SIZE, ?_, ?_, h.offset_out, h.end_out⟩
  · show HTTP_REPLY_SIZE ≤ c.offset_in-(c.current_in-HTTP_REPLY_SIZE)
    omega
  · show c.offset_in-(c.current_in-HTTP_REPLY_SIZE) ≤ MAX_HTTP_SIZE
    omega

theorem compacted_out (c : RTMPTConnection) :
    c.compacted.priv_buffer_out = c.priv_buffer_out ∧ c.compacted.offset_out = c.offset_out := by
  rw [compacted]
  split_ifs <;> exact ⟨rfl, rfl⟩

/-- A length that is not negative is that of the content received. -/
theorem posted_content (p : Posted) (hsign : 0 ≤ int32 p.pHTTP.iContent) :
    int32 p.pHTTP.iContent = p.pHTTP.iContent ∧
      p.pHTTP.iHeader+p.pHTTP.iContent ≤ iBuffer ∧
      p.pHTTP.content.length = p.pHTTP.iContent := by
  have hbuffer : iBuffer = 64000 := rfl
  have hcontent := p.content
  have hheader := p.header
  have hmessage := p.message
  have hoffset := p.offset
  have hend := p.buffer
  have hsmall : p.pHTTP.iContent < 2^31 := by
    by_contra hlarge
    have hneg : int32 p.pHTTP.iContent = (p.pHTTP.iContent : ℤ)-2^32 := by
      rw [int32, Int.bmod_def]
      omega
    omega
  refine ⟨int32_of_range _ (by omega) (by omega), by omega, ?_⟩
  rw [HTTPConnection.content, List.length_take, List.length_drop]
  rw [HTTPConnection.iOffset] at hoffset
  omega

theorem copied_waiting (h : Pointers c) (p : Posted) (hsign : 0 ≤ int32 p.pHTTP.iContent)
    (hroom : c.roomFor (int32 p.pHTTP.iContent)) :
    ∃ c', c.copied p.pHTTP = .ok c' ∧ Pointers c' ∧
      c'.waitingIn = c.waitingIn ++ p.pHTTP.content ∧
      c'.priv_buffer_out = c.priv_buffer_out ∧ c'.offset_out = c.offset_out := by
  rcases posted_content p hsign with ⟨hvalue, hsource, hlength⟩
  have hoffset := h.offset_in
  have hend := h.end_in
  rw [roomFor, hvalue] at hroom
  have hroom' : c.offset_in+p.pHTTP.iContent ≤ MAX_HTTP_SIZE := by omega
  rw [copied, if_pos ⟨hsource, hroom'⟩]
  refine ⟨_, rfl, ⟨h.current_in, ?_, hroom', h.offset_out, h.end_out⟩, ?_, rfl, rfl⟩
  · exact hoffset.trans (Nat.le_add_right _ _)
  · have hextend := load_store_append c.priv_buffer_in c.current_in (c.offset_in-c.current_in)
      p.pHTTP.content
    rw [Nat.add_sub_cancel' hoffset, hlength] at hextend
    show load _ c.current_in (c.offset_in+p.pHTTP.iContent-c.current_in) = _
    rw [Nat.sub_add_comm hoffset, hextend]
    rfl

theorem accept_waiting (h : Pointers c) (iMode : Mode) (p : Posted)
    (hsign : iMode = .SEND → 0 ≤ int32 p.pHTTP.iContent) :
    ∃ bAccepted c', c.accept iMode p.pHTTP = .ok (bAccepted, c') ∧ Pointers c' ∧
      c'.priv_buffer_out = c.priv_buffer_out ∧ c'.offset_out = c.offset_out ∧
      (bAccepted = true → c'.waitingIn = c.waitingIn ++ postedBy iMode p) ∧
      (bAccepted = false → (iMode = .SEND ∧ ¬ c.compacted.roomFor (int32 p.pHTTP.iContent)) ∧
        c'.waitingIn = c.waitingIn) := by
  cases iMode with
  | IDLE =>
    refine ⟨true, c, rfl, h, rfl, rfl, fun _ => ?_, fun hfalse => by cases hfalse⟩
    exact (List.append_nil _).symm
  | SEND =>
    have hcompacted := compacted_pointers h
    rcases compacted_out c with ⟨hout, hoffset⟩
    rw [accept]
    by_cases hroom : c.compacted.roomFor (int32 p.pHTTP.iContent)
    · rcases copied_waiting hcompacted p (hsign rfl) hroom with
        ⟨c', hcopied, hpointers, hwaiting, hout', hoffset'⟩
      rw [if_pos hroom, hcopied]
      refine ⟨true, c', rfl, hpointers, hout'.trans hout, hoffset'.trans hoffset, fun _ => ?_,
        fun hfalse => by cases hfalse⟩
      rw [hwaiting, compacted_waiting h]
      rfl
    · rw [if_neg hroom]
      exact ⟨false, c.compacted, rfl, hcompacted, hout, hoffset, (fun htrue => by cases htrue),
        fun _ => ⟨⟨rfl, hroom⟩, compacted_waiting h⟩⟩

/-! ## The reply -/

/-- What is left of the results of a socket once it has taken so many bytes. -/
def takes (bBlocking : Bool) : List ℤ → ℕ → Option (List ℤ)
  | sends, 0 => some sends
  | [], _+1 => some []
  | k::sends, n+1 =>
    if 0 < k then takes bBlocking sends (n+1-k.toNat)
    else if k = comAgain ∧ bBlocking then takes bBlocking sends (n+1)
    else none

theorem sendLoop_takes {bBlocking : Bool} {sends rest : List ℤ} {bs : Bytes} (out : Bytes)
    (iVal : ℤ) (htakes : takes bBlocking sends bs.length = some rest) :
    ∃ v, sendLoop bBlocking sends bs out iVal = (v, out ++ bs, rest) := by
  induction sends generalizing bs out iVal with
  | nil =>
    cases bs with
    | nil => exact ⟨iVal, by simp_all [takes, sendLoop]⟩
    | cons b bs =>
      have hrest : [] = rest := Option.some.inj htakes
      exact ⟨_, by rw [sendLoop, hrest]⟩
  | cons k sends ih =>
    cases bs with
    | nil =>
      have hrest : k::sends = rest := Option.some.inj htakes
      exact ⟨iVal, by rw [sendLoop, hrest, List.append_nil]⟩
    | cons b bs =>
      rw [List.length_cons, takes] at htakes
      rw [sendLoop]
      split_ifs at htakes ⊢ with hpos hagain
      · have hlength : ((b::bs).drop k.toNat).length = bs.length+1-k.toNat := by
          rw [List.length_drop, List.length_cons]
        rw [← hlength] at htakes
        rcases ih (out ++ (b::bs).take k.toNat) (min k (b::bs).length) htakes with ⟨v, hv⟩
        exact ⟨v, by rw [hv, List.append_assoc, List.take_append_drop]⟩
      · exact ih out k htakes

theorem sendLoop_prefix (bBlocking : Bool) (sends : List ℤ) (bs out : Bytes) (iVal : ℤ) :
    ∃ taken, (sendLoop bBlocking sends bs out iVal).2.1 = out ++ taken ∧
      taken.length ≤ bs.length := by
  induction sends generalizing bs out iVal with
  | nil =>
    cases bs with
    | nil => exact ⟨[], by simp [sendLoop], le_rfl⟩
    | cons b bs => exact ⟨b::bs, rfl, le_rfl⟩
  | cons k sends ih =>
    cases bs with
    | nil => exact ⟨[], by simp [sendLoop], le_rfl⟩
    | cons b bs =>
      rw [sendLoop]
      split_ifs
      · rcases ih ((b::bs).drop k.toNat) (out ++ (b::bs).take k.toNat) (min k (b::bs).length) with
          ⟨taken, htaken, hle⟩
        refine ⟨(b::bs).take k.toNat ++ taken, ?_, ?_⟩
        · rw [htaken, List.append_assoc]
        · rw [List.length_append, List.length_take]
          rw [List.length_drop] at hle
          omega
      · exact ih (b::bs) out k
      · exact ⟨[], by simp, Nat.zero_le _⟩

/-- The socket takes the reply to its end. -/
def TakesReply (c : RTMPTConnection) (pHTTP : HTTPConnection) : Prop :=
  ∃ rest rest',
    takes pHTTP.pConnection.bBlocking pHTTP.pConnection.sends
      (pHTTP.replyHeader 200 "OK" c.reply.length mFields).length = some rest ∧
    takes pHTTP.pConnection.bBlocking rest c.reply.length = some rest'

theorem reply_eq (c : RTMPTConnection) : c.reply = 1::c.waitingOut := by
  have hnext : HTTP_REPLY_SIZE-1+1 = HTTP_REPLY_SIZE := rfl
  have habove := load_store_above c.priv_buffer_out (HTTP_REPLY_SIZE-1)
    (c.offset_out-HTTP_REPLY_SIZE) HTTP_REPLY_SIZE [1] hnext.le
  have hfirst := store_inside c.priv_buffer_out (HTTP_REPLY_SIZE-1) 0 [1] Nat.one_pos
  rw [Nat.add_zero] at hfirst
  rw [reply, load, marked]
  dsimp only
  rw [hnext, habove, hfirst, waitingOut]
  rfl

theorem delivered_whole {pHTTP : HTTPConnection} (htakes : TakesReply c pHTTP) :
    c.delivered pHTTP = c.reply := by
  rcases htakes with ⟨rest, rest', hheader, hreply⟩
  rcases sendLoop_takes pHTTP.pConnection.out 0 hheader with ⟨v, hv⟩
  have hsent : c.headerSent pHTTP = { pHTTP.pConnection with
      out := pHTTP.pConnection.out ++ pHTTP.replyHeader 200 "OK" c.reply.length mFields
      sends := rest } := by
    rw [headerSent, sendSmart, hv]
  rcases sendLoop_takes (c.headerSent pHTTP).out 0 hreply with ⟨v', hv'⟩
  rw [delivered, sendSmart, hsent]
  rw [hsent] at hv'
  dsimp only at hv' ⊢
  rw [hv', List.drop_left]

theorem delivered_empty {pHTTP : HTTPConnection} (hempty : c.offset_out = HTTP_REPLY_SIZE) :
    (c.delivered pHTTP).drop 1 = [] := by
  rcases sendLoop_prefix (c.headerSent pHTTP).bBlocking (c.headerSent pHTTP).sends c.reply
    (c.headerSent pHTTP).out 0 with ⟨taken, htaken, hle⟩
  have hdelivered : c.delivered pHTTP = taken := by
    rw [delivered, sendSmart]
    dsimp only
    rw [htaken, List.drop_left]
  rw [reply, load_length, hempty, Nat.sub_self] at hle
  rw [hdelivered, List.drop_eq_nil_of_le hle]

theorem sendSmart_quiet {pConnection : ConnectionInterface} (hthrow : pConnection.bThrow = false)
    (pBuffer : Bytes) :
    ∃ iVal next, sendSmart pConnection pBuffer = (.ok iVal, next) ∧ next.bThrow = false := by
  have hstatus : ∀ iRet, evaluateStatus pConnection iRet = .ok iRet := fun iRet => by
    rw [evaluateStatus, if_pos (Or.inr hthrow)]
  exact ⟨_, _, Prod.ext (hstatus _) rfl, hthrow⟩

/-- On a socket that does not throw, a reply always counts as sent. -/
theorem sendReply_counts (p : Posted) (pData : Bytes) (iStatus : ℕ) (sStatus : String)
    (fields : Fields) :
    ∃ iSent pHTTP, p.pHTTP.sendReply iStatus sStatus pData fields = (.ok iSent, pHTTP) ∧
      0 ≤ iSent := by
  rcases sendSmart_quiet p.throwing (p.pHTTP.replyHeader iStatus sStatus pData.length fields) with
    ⟨iVal, next, hheader, hthrow⟩
  rcases sendSmart_quiet hthrow pData with ⟨iVal', next', hdata, -⟩
  rw [HTTPConnection.sendReply, hheader]
  dsimp only
  by_cases hempty : pData = []
  · rw [if_pos hempty]
    exact ⟨_, _, rfl, Int.natCast_nonneg _⟩
  · rw [if_neg hempty, hdata]
    exact ⟨_, _, rfl, by positivity⟩

theorem emptied_waiting (c : RTMPTConnection) :
    ({ c.marked with offset_out := HTTP_REPLY_SIZE } : RTMPTConnection).waitingOut = [] := by
  rw [waitingOut]
  dsimp only
  rw [Nat.sub_self, load]

theorem emptied_pointers (h : Pointers c) :
    Pointers { c.marked with offset_out := HTTP_REPLY_SIZE } where
  current_in := h.current_in
  offset_in := h.offset_in
  end_in := h.end_in
  offset_out := Nat.le_refl HTTP_REPLY_SIZE
  end_out := h.offset_out.trans h.end_out

theorem handle_accepted (p : Posted) {iMode : Mode} {c' : RTMPTConnection}
    (haccept : c.accept iMode p.pHTTP = .ok (true, c')) :
    ∃ pHTTP, c.handle iMode p.pHTTP =
      .ok (0, pHTTP, { c'.marked with offset_out := HTTP_REPLY_SIZE }) := by
  rcases sendReply_counts p c'.reply 200 "OK" mFields with ⟨iSent, pHTTP, hsent, hpos⟩
  refine ⟨pHTTP, ?_⟩
  rw [handle, haccept]
  dsimp only
  rw [hsent]
  dsimp only
  rw [if_neg (not_lt.mpr hpos)]

theorem handle_refused {pHTTP : HTTPConnection} {iMode : Mode} {c' : RTMPTConnection}
    (haccept : c.accept iMode pHTTP = .ok (false, c')) :
    c.handle iMode pHTTP = .ok (-1, pHTTP, c') := by
  rw [handle, haccept]

/-! ## The conditions -/

/-- The length is not negative, and the reply, if there is one to give and something in it, is
taken to its end. -/
structure Sound (t : Tunnel) (iMode : Mode) (p : Posted) : Prop where
  sign : iMode = .SEND → 0 ≤ int32 p.pHTTP.iContent
  reply : (iMode = .SEND → t.conn.compacted.roomFor (int32 p.pHTTP.iContent)) →
    t.conn.offset_out = HTTP_REPLY_SIZE ∨ t.conn.TakesReply p.pHTTP

def SoundOp (t : Tunnel) : Op → Prop
  | .post iMode p => Sound t iMode p
  | _ => True

def SoundRun : Tunnel → List Op → Prop
  | _, [] => True
  | t, op::ops => SoundOp t op ∧ ∀ t', t.step op = .ok t' → SoundRun t' ops

theorem post_accounted (h : Accounted t) {iMode : Mode} {p : Posted} (hsound : Sound t iMode p) :
    ∃ t', t.post iMode p = .ok t' ∧ Accounted t' := by
  have hpointers := h.pointers
  rcases accept_waiting hpointers iMode p hsound.sign with
    ⟨bAccepted, c, haccept, hc, hout, hoffset, hyes, hno⟩
  cases bAccepted with
  | true =>
    rcases handle_accepted p haccept with ⟨pHTTP, hhandle⟩
    have hreply : c.reply = t.conn.reply := by
      rw [reply, reply, marked, marked, hout, hoffset]
    have hwaiting : c.waitingOut = t.conn.waitingOut := by
      rw [waitingOut, waitingOut, hout, hoffset]
    have hroom : iMode = .SEND → t.conn.compacted.roomFor (int32 p.pHTTP.iContent) := by
      intro hmode
      by_contra hfull
      rw [hmode, accept, if_neg hfull] at haccept
      cases haccept
    have hdelivered : (c.delivered p.pHTTP).drop 1 = t.conn.waitingOut := by
      rcases hsound.reply hroom with hempty | htakes
      · rw [delivered_empty (hoffset.trans hempty), waitingOut, hempty, Nat.sub_self, load]
      · have htakes' : TakesReply c p.pHTTP := by
          rw [TakesReply] at htakes ⊢
          rwa [hreply]
        rw [delivered_whole htakes', reply_eq, ← hwaiting, List.drop_one, List.tail_cons]
    rw [Tunnel.post, hhandle, haccept]
    refine ⟨_, rfl, emptied_pointers hc, ?_, ?_⟩
    · show t.posted ++ _ = t.taken ++ c.waitingIn
      rw [hyes rfl, h.input, List.append_assoc]
    · dsimp only
      rw [hdelivered, h.output, emptied_waiting, List.append_nil]
  | false =>
    rcases hno rfl with ⟨-, hwaiting⟩
    rw [Tunnel.post, handle_refused haccept, haccept]
    refine ⟨_, rfl, hc, ?_, ?_⟩
    · show t.posted = t.taken ++ c.waitingIn
      rw [hwaiting]
      exact h.input
    · show t.sent = t.replied ++ c.waitingOut
      rw [waitingOut, hout, hoffset]
      exact h.output

theorem step_accounted (h : Accounted t) {op : Op} (hsound : SoundOp t op) :
    ∃ t', t.step op = .ok t' ∧ Accounted t' := by
  cases op with
  | post iMode p => exact post_accounted h hsound
  | receive iSize => exact ⟨_, rfl, receive_accounted h iSize⟩
  | send pData => exact ⟨_, rfl, send_accounted h pData⟩
  | terminateExternal =>
    have hp := h.pointers
    exact ⟨_, rfl, ⟨hp.1, hp.2, hp.3, hp.4, hp.5⟩, h.input, h.output⟩
  | terminateInternal =>
    have hp := h.pointers
    exact ⟨_, rfl, ⟨hp.1, hp.2, hp.3, hp.4, hp.5⟩, h.input, h.output⟩

theorem run_accounted (h : Accounted t) {ops : List Op} (hsound : SoundRun t ops) :
    ∃ t', t.run ops = .ok t' ∧ Accounted t' := by
  induction ops generalizing t with
  | nil => exact ⟨t, rfl, h⟩
  | cons op ops ih =>
    rcases step_accounted h hsound.1 with ⟨t', hstep, ht'⟩
    rcases ih ht' (hsound.2 t' hstep) with ⟨t'', hrun, ht''⟩
    refine ⟨t'', ?_, ht''⟩
    rw [Tunnel.run, hstep]
    exact hrun

theorem new_accounted : Accounted Tunnel.new where
  pointers := ⟨le_rfl, le_rfl, by decide, le_rfl, by decide⟩
  input := rfl
  output := rfl

/-! ## Every run -/

structure Fifo (t : Tunnel) : Prop where
  accounted : Accounted t
  taken : t.taken <+: t.posted
  replied : t.replied <+: t.sent
  refusedPost : ∀ iMode pHTTP c, t.conn.accept iMode pHTTP = .ok (false, c) →
    c.waitingIn = t.conn.waitingIn ∧ c.waitingOut = t.conn.waitingOut
  refusedSend : ∀ pData, (t.conn.send pData).1 < 0 → (t.conn.send pData).2 = t.conn

theorem accept_refused (h : Pointers c) {iMode : Mode} {pHTTP : HTTPConnection}
    {c' : RTMPTConnection} (hrefused : c.accept iMode pHTTP = .ok (false, c')) :
    c'.waitingIn = c.waitingIn ∧ c'.waitingOut = c.waitingOut := by
  have hc' : c' = c.compacted := by
    cases iMode with
    | IDLE => cases hrefused
    | SEND =>
      rw [accept] at hrefused
      split_ifs at hrefused
      · split at hrefused <;> cases hrefused
      · cases hrefused
        rfl
  rw [hc']
  refine ⟨compacted_waiting h, ?_⟩
  rw [waitingOut, waitingOut, (compacted_out c).1, (compacted_out c).2]

theorem send_refused {pData : Bytes} (hrefused : (c.send pData).1 < 0) :
    (c.send pData).2 = c := by
  rw [send] at hrefused ⊢
  split_ifs at hrefused ⊢
  · rfl
  · rfl
  · exact absurd hrefused (not_lt.mpr (Int.natCast_nonneg _))

theorem Accounted.fifo (h : Accounted t) : Fifo t where
  accounted := h
  taken := ⟨_, h.input.symm⟩
  replied := ⟨_, h.output.symm⟩
  refusedPost := fun _ _ _ hrefused => accept_refused h.pointers hrefused
  refusedSend := fun _ hrefused => send_refused hrefused

def examplePost (sends : List ℤ) : Posted where
  pHTTP := { HTTPConnection.new ⟨true, false, [], sends, [], ""⟩ "HTTP/1.1" with
    pRcvBuffer := [13, 10, 7, 8]
    iHeader := 2
    iContent := 2
    iMessage := 4 }
  header := show 2 ≤ 4 by decide
  content := show 2 < 2^32 by decide
  message := show 4 = (2+2)%2^32 by decide
  offset := show 4 ≤ 4 by decide
  buffer := show 4 ≤ 64000 by decide
  throwing := rfl

theorem takes_all (bBlocking : Bool) (n : ℕ) : takes bBlocking [] n = some [] := by
  cases n <;> rfl

def exampleOps : List Op := [.send [1, 2], .post .SEND (examplePost []), .receive 1]

/-- A reply on a socket that is closed: what it held is gone. -/
def lostOps : List Op := [.send [1, 2], .post .IDLE (examplePost [-1, -1])]

open StateError

/-- Whether the socket throws does not change. -/
def SameThrow (h h' : HTTPConnection) : Prop := h'.pConnection.bThrow = h.pConnection.bThrow

instance : IsPreorder HTTPConnection SameThrow where
  refl _ := rfl
  trans _ _ _ hab hbc := hbc.trans hab

theorem findMarker_throw (fuel : ℕ) : Along SameThrow (HTTPConnection.findMarker fuel) := by
  induction fuel with
  | zero => exact along_pure _
  | succ fuel ih =>
    rw [HTTPConnection.findMarker]
    apply along_get_bind
    intro h
    refine along_modify_bind (R := SameThrow) (fun _ => rfl) ?_
    refine along_ite (along_pure _) ?_
    refine along_modify_bind (R := SameThrow) (fun _ => rfl) ?_
    refine along_bind (along_ofExcept _) fun iBytes => ?_
    exact along_ite (along_pure _) ih

theorem shifted_throw (h : HTTPConnection) : SameThrow h h.shifted := by
  rw [HTTPConnection.shifted]
  split_ifs <;> rfl

theorem parse_throw : Along SameThrow HTTPConnection.parseRequestHeader := by
  rw [HTTPConnection.parseRequestHeader]
  apply along_get_bind
  intro h
  refine along_modify_bind (R := SameThrow) (fun _ => rfl) ?_
  cases search headExpression (cstr h.text) with
  | none => exact along_pure _
  | some m =>
    refine along_modify_bind (R := SameThrow) (fun _ => rfl) ?_
    exact along_ite (along_pure _) (along_pure _)

theorem receiveContent_throw : Along SameThrow HTTPConnection.receiveContent := by
  rw [HTTPConnection.receiveContent]
  apply along_get_bind
  intro h
  refine along_ite (along_throw _) ?_
  apply along_ite
  · refine along_modify_bind (R := SameThrow) (fun _ => rfl) ?_
    exact along_bind (along_ofExcept _) fun _ => along_pure _
  · exact along_pure _

theorem receiveMessage_throw : Along SameThrow (HTTPConnection.receiveMessage true) := by
  rw [HTTPConnection.receiveMessage, HTTPConnection.receive]
  refine along_modify_bind (R := SameThrow) shifted_throw ?_
  refine along_bind (findMarker_throw _) fun bMessage => ?_
  refine along_ite ?_ (along_pure _)
  refine along_modify_bind (R := SameThrow) (fun _ => rfl) ?_
  refine along_bind parse_throw fun iStatus => ?_
  apply along_get_bind
  intro h
  refine along_ite (along_throw _) ?_
  refine along_modify_bind (R := SameThrow) (fun _ => rfl) ?_
  rw [if_pos rfl]
  refine along_bind receiveContent_throw fun bComplete => ?_
  apply along_get_bind
  intro h'
  exact along_ite (along_pure _) (along_pure _)

theorem calls_throw (n : ℕ) (h : HTTPConnection) : SameThrow h (HTTPConnection.calls n h) := by
  induction n generalizing h with
  | zero => rfl
  | succ n ih => exact (ih h.called).trans (receiveMessage_throw h)

/-- A call that succeeds on a socket of the server leaves a message as assumed here. -/
theorem posted_of_receive (pSocket : ConnectionInterface) (hthrow : pSocket.bThrow = false)
    (sApplication : String) (n : ℕ) {iStatus : ℤ} {h : HTTPConnection}
    (hrun : (HTTPConnection.receiveMessage true).run
      (HTTPConnection.calls n (HTTPConnection.new pSocket sApplication)) = .ok iStatus h)
    (hstatus : 0 < iStatus) : ∃ p : Posted, p.pHTTP = h := by
  have hbounded := HTTPConnection.calls_bounded n
    (HTTPConnection.new_bounded pSocket sApplication)
  rcases triple_ok (HTTPConnection.receiveMessage_bounded _) ⟨hbounded, rfl⟩ hrun with
    ⟨hb, hcomplete⟩
  have hc := hcomplete hstatus.le
  have hkeeps := receiveMessage_throw
    (HTTPConnection.calls n (HTTPConnection.new pSocket sApplication))
  rw [hrun] at hkeeps
  have hcontent := hc.content
  have hmessage := hc.message
  rw [MachineInt.uint32_add] at hmessage
  refine ⟨⟨h, hc.header, ?_, hmessage, hc.offset, hb.offset, ?_⟩, rfl⟩
  · rw [hcontent, uint32]
    omega
  · exact hkeeps.trans ((calls_throw n _).trans hthrow)

end RTMPTConnection

end Sirannon.RTMPT
