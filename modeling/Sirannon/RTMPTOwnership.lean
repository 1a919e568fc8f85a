import Sirannon.RTMPTServer

/-!
# Who deletes a connection

The two flags of a connection are looked at outside of the locks that guard
them, and the address of a connection is kept after the lock of the map is
released. What can go wrong is that one side deletes while another still holds
the address, or that both sides miss each other. In a run without these, a
connection is deleted once, by the side that comes last.
-/

set_option autoImplicit false

namespace Sirannon.RTMPT
namespace RTMPTServer

variable {s : RTMPTServer}

/-! ## Clean steps -/

structure Sound (s : RTMPTServer) : Prop where
  noNull : ∀ e ∈ s.mUrl2Connection, e.2 ≠ none
  once : ∀ c, s.iDeleted c ≤ 1
  alive : s.bDangling = false ∧ s.bNull = false
  freed : ∀ c, (s.connections c).bClosed = true → (s.connections c).session = .ended →
    0 < s.iDeleted c

def Holds (s : RTMPTServer) (i c : ℕ) : Prop :=
  match s.handlers i with
  | .handling _ pConnection _ => pConnection = c
  | _ => False

instance (i c : ℕ) : Decidable (s.Holds i c) := by
  unfold Holds
  split <;> infer_instance

def CleanHandle (s : RTMPTServer) (i : ℕ) (bSent : Bool) : Handler → Prop
  | .handling .CLOSE _ .replying => bSent = true
  | .handling _ c .deleting => ∀ j < s.iSockets, j ≠ i → ¬ s.Holds j c
  | _ => True

def CleanEnding (s : RTMPTServer) (c : ℕ) : Session → Prop
  | .ending true => (∀ i < s.iSockets, ¬ s.Holds i c) ∧ ∀ e ∈ s.mUrl2Connection, e.2 ≠ some c
  | .ending false => (s.connections c).terminateExternal = false
  | _ => True

/-- No request to close what is not there and none whose reply is lost; nothing is deleted while a
request holds it or the map names it; and no flag is set between the look at it and its use. -/
def Clean (s : RTMPTServer) : Action → Prop
  | .request _ .close sHash => s.mUrl2Connection.value sHash ≠ none
  | .handle i bSent => s.CleanHandle i bSent (s.handlers i)
  | .endSession c => s.CleanEnding c (s.connections c).session
  | _ => True

def CleanRun : List Action → RTMPTServer → Prop
  | [], _ => True
  | a::actions, s => s.Clean a ∧ ∀ s', s.step a = some s' → CleanRun actions s'

instance (i : ℕ) (bSent : Bool) (handler : Handler) : Decidable (s.CleanHandle i bSent handler) := by
  unfold CleanHandle
  split <;> infer_instance

instance (c : ℕ) (session : Session) : Decidable (s.CleanEnding c session) := by
  unfold CleanEnding
  split <;> infer_instance

instance (a : Action) : Decidable (s.Clean a) := by
  unfold Clean
  split <;> infer_instance

/-! ## The map -/

section
variable {m : UrlMap} {sHash : String} {c : ℕ}

theorem mem_erase {e : String × Option ℕ} : e ∈ m.erase sHash ↔ e ∈ m ∧ e.1 ≠ sHash := by
  simp [UrlMap.erase]

theorem mem_insert {e : String × Option ℕ} {v : Option ℕ} :
    e ∈ m.insert sHash v ↔ e = (sHash, v) ∨ e ∈ m ∧ e.1 ≠ sHash := by
  rw [UrlMap.insert, List.mem_cons, mem_erase]

theorem keys_erase (h : (m.map Prod.fst).Nodup) : ((m.erase sHash).map Prod.fst).Nodup :=
  h.sublist (List.filter_sublist.map Prod.fst)

theorem keys_insert {v : Option ℕ} (h : (m.map Prod.fst).Nodup) :
    ((m.insert sHash v).map Prod.fst).Nodup := by
  rw [UrlMap.insert, List.map_cons, List.nodup_cons]
  refine ⟨?_, keys_erase h⟩
  rw [List.mem_map]
  rintro ⟨e, he, hkey⟩
  exact (mem_erase.mp he).2 hkey

theorem mem_of_value (h : m.value sHash = some c) : (sHash, some c) ∈ m := by
  rw [UrlMap.value, UrlMap.find] at h
  cases he : m.find? (fun e => e.1 = sHash) with
  | none =>
    rw [he] at h
    cases h
  | some e =>
    rw [he] at h
    have hkey : e.1 = sHash := by simpa using List.find?_some he
    have hvalue : e.2 = some c := by simpa using h
    rw [← hkey, ← hvalue]
    exact List.mem_of_find?_eq_some he

end

/-! ## The invariant -/

def Fits : RequestMode → Phase → Prop
  | .OPEN, phase => phase ≠ .tunnelling ∧ phase ≠ .terminating
  | .CLOSE, phase => phase ≠ .tunnelling
  | _, phase => phase ≠ .replying ∧ phase ≠ .terminating

/-- The request that closes a connection has it for itself. -/
structure Closes (s : RTMPTServer) (i c : ℕ) (phase : Phase) : Prop where
  unmapped : ∀ sHash, (sHash, some c) ∉ s.mUrl2Connection
  only : ∀ j phase', s.handlers j = .handling .CLOSE c phase' → j = i
  flag : phase ≠ .replying → phase ≠ .terminating → (s.connections c).terminateExternal = true

/-- What a request knows about the connection it holds. -/
structure Knows (s : RTMPTServer) (iMode : RequestMode) (c : ℕ) (phase : Phase) : Prop where
  made : c < s.iConnections
  kept : s.iDeleted c = 0
  fits : Fits iMode phase
  internal : phase = .testExternal ∨ phase = .deleting → (s.connections c).terminateInternal = true
  external : phase = .deleting → (s.connections c).terminateExternal = true

structure Mapped (s : RTMPTServer) (sHash : String) (c : ℕ) : Prop where
  made : c < s.iConnections
  kept : s.iDeleted c = 0
  hash : (s.connections c).hash = sHash
  external : (s.connections c).terminateExternal = false
  still : (s.connections c).bClosed = false

/-- A connection that has been closed: its session will see the flag, or the request that closes
it has still to look whether the session has ended. -/
def Watched (s : RTMPTServer) (c : ℕ) : Prop :=
  ((s.connections c).bClosed = true ∧ (s.connections c).terminateInternal = false) ∨
    ∃ i phase, s.handlers i = .handling .CLOSE c phase ∧ phase ≠ .replying

structure Owned (s : RTMPTServer) : Prop where
  sockets : ∀ i, s.iSockets ≤ i → s.handlers i = .returned
  fresh : ∀ c, s.iConnections ≤ c → s.connections c = .new ∧ s.iDeleted c = 0
  keys : (s.mUrl2Connection.map Prod.fst).Nodup
  noNull : ∀ e ∈ s.mUrl2Connection, e.2 ≠ none
  mapped : s.bDestroyed = false → ∀ sHash c, (sHash, some c) ∈ s.mUrl2Connection →
    Mapped s sHash c
  quiet : s.bDestroyed = true → ∀ i, (s.handlers i).isBusy = false
  knows : ∀ i iMode c phase, s.handlers i = .handling iMode c phase → Knows s iMode c phase
  closes : ∀ i c phase, s.handlers i = .handling .CLOSE c phase → Closes s i c phase
  active : ∀ c, (s.connections c).session ≠ .none → (s.connections c).session ≠ .ended →
    s.iDeleted c = 0 ∧ (s.connections c).terminateInternal = false
  ended : ∀ c, (s.connections c).session = .ended → s.iDeleted c = 0 →
    (s.connections c).terminateInternal = true
  watched : ∀ c, (s.connections c).terminateExternal = true → s.iDeleted c = 0 → Watched s c
  closed : ∀ c, (s.connections c).bClosed = true → s.iDeleted c = 0 →
    (s.connections c).terminateExternal = true
  once : ∀ c, s.iDeleted c ≤ 1
  alive : s.bDangling = false ∧ s.bNull = false

/-- A request to close a connection has been handled when no handler is at it any more. -/
def Apart (s : RTMPTServer) : Prop :=
  ∀ i c phase, s.handlers i = .handling .CLOSE c phase → (s.connections c).bClosed = false

theorem sound_of_owned (h : Owned s) (hapart : Apart s) : Sound s where
  noNull := h.noNull
  once := h.once
  alive := h.alive
  freed := by
    intro c hclosed hended
    by_contra hdeleted
    have hzero : s.iDeleted c = 0 := by omega
    rcases h.watched c (h.closed c hclosed hzero) hzero with hinternal | ⟨i, phase, hcloser, -⟩
    · rw [h.ended c hended hzero] at hinternal
      exact Bool.noConfusion hinternal.2
    · rw [hapart i c phase hcloser] at hclosed
      exact Bool.noConfusion hclosed

theorem new_owned : Owned RTMPTServer.new := by
  constructor <;> simp [RTMPTServer.new, SharedConnection.new]

/-- Using a connection that is still there changes nothing. -/
theorem used_eq {c : ℕ} (hkept : s.iDeleted c = 0) : s.used c = s := by
  simp [RTMPTServer.used, hkept]

/-! ## Handlers -/

variable {i j c : ℕ} {iMode : RequestMode} {phase phase' : Phase} {handler : Handler}

theorem at_handlers : (s.at i handler).handlers j = if j = i then handler else s.handlers j := by
  exact Function.update_apply s.handlers i handler j

theorem at_busy (h : Owned s) (hlive : s.bDestroyed = false) (hi : i < s.iSockets)
    (hknows : Knows s iMode c phase) (hcloses : iMode = .CLOSE → Closes s i c phase)
    (hleave : ∀ c' phase', s.handlers i = .handling .CLOSE c' phase' →
      iMode = .CLOSE ∧ c' = c ∧ phase ≠ .replying) :
    Owned (s.at i (.handling iMode c phase)) :=
  { h with
    sockets := by
      intro j hj
      rw [at_handlers, if_neg (by
        have : s.iSockets ≤ j := hj
        omega)]
      exact h.sockets j hj
    quiet := by
      intro hdestroyed
      rw [show s.bDestroyed = true from hdestroyed] at hlive
      exact Bool.noConfusion hlive
    mapped := fun hlive sHash c hm => { h.mapped hlive sHash c hm with }
    knows := by
      intro j iMode' c' phase' hj
      rw [at_handlers] at hj
      split at hj
      · cases hj
        exact { hknows with }
      · exact { h.knows j iMode' c' phase' hj with }
    closes := by
      intro j c' phase' hj
      rw [at_handlers] at hj
      split at hj
      case isTrue hji =>
        cases hj
        exact { hcloses rfl with
          only := by
            intro k phase'' hk
            rw [at_handlers] at hk
            split at hk
            case isTrue hki => rw [hki, hji]
            case isFalse =>
              rw [hji]
              exact (hcloses rfl).only k phase'' hk }
      case isFalse hji =>
        have hold := h.closes j c' phase' hj
        exact { hold with
          only := by
            intro k phase'' hk
            rw [at_handlers] at hk
            split at hk
            case isTrue =>
              cases hk
              exact absurd ((hcloses rfl).only j phase' hj) hji
            case isFalse => exact hold.only k phase'' hk }
    watched := by
      intro c' hexternal hkept
      rcases h.watched c' hexternal hkept with hleft | ⟨j, phase', hj, hphase⟩
      · exact Or.inl hleft
      · by_cases hji : j = i
        · rw [hji] at hj
          rcases hleave c' phase' hj with ⟨hmode, hc, hlate⟩
          exact Or.inr ⟨i, phase, by rw [at_handlers, if_pos rfl, hmode, hc], hlate⟩
        · exact Or.inr ⟨j, phase', by rw [at_handlers, if_neg hji, hj], hphase⟩ }

theorem at_idle (h : Owned s) (hi : i < s.iSockets) (hidle : handler.isBusy = false)
    (hleave : ∀ c phase, s.handlers i = .handling .CLOSE c phase → s.iDeleted c = 0 →
      (s.connections c).bClosed = true ∧ (s.connections c).terminateInternal = false) :
    Owned (s.at i handler) :=
  { h with
    sockets := by
      intro j hj
      rw [at_handlers, if_neg (by
        have : s.iSockets ≤ j := hj
        omega)]
      exact h.sockets j hj
    quiet := by
      intro hdestroyed j
      rw [at_handlers]
      split
      · exact hidle
      · exact h.quiet hdestroyed j
    mapped := fun hlive sHash c hm => { h.mapped hlive sHash c hm with }
    knows := by
      intro j iMode c phase hj
      rw [at_handlers] at hj
      split at hj
      · rw [hj] at hidle
        cases hidle
      · exact { h.knows j iMode c phase hj with }
    closes := by
      intro j c phase hj
      rw [at_handlers] at hj
      split at hj
      · rw [hj] at hidle
        cases hidle
      · exact { h.closes j c phase hj with
          only := by
            intro k phase' hk
            rw [at_handlers] at hk
            split at hk
            · rw [hk] at hidle
              cases hidle
            · exact (h.closes j c phase hj).only k phase' hk }
    watched := by
      intro c hexternal hkept
      rcases h.watched c hexternal hkept with hleft | ⟨j, phase, hj, hphase⟩
      · exact Or.inl hleft
      · by_cases hji : j = i
        · rw [hji] at hj
          exact Or.inl (hleave c phase hj hkept)
        · exact Or.inr ⟨j, phase, by rw [at_handlers, if_neg hji, hj], hphase⟩ }

/-! ## Connections -/

variable {x : SharedConnection}

theorem set_connections {d : ℕ} :
    (s.setConnection c x).connections d = if d = c then x else s.connections d :=
  Function.update_apply s.connections c x d

/-- Flags are set and not taken back, and only when the rest of the state allows it. -/
structure Allows (s : RTMPTServer) (c : ℕ) (x : SharedConnection) : Prop where
  made : c < s.iConnections
  mapped : s.bDestroyed = false → ∀ sHash, (sHash, some c) ∈ s.mUrl2Connection →
    x.hash = (s.connections c).hash ∧ x.terminateExternal = false ∧ x.bClosed = false
  external : (s.connections c).terminateExternal = true → x.terminateExternal = true
  internal : (s.connections c).terminateInternal = true → x.terminateInternal = true
  active : x.session ≠ .none → x.session ≠ .ended → s.iDeleted c = 0 ∧ x.terminateInternal = false
  ended : x.session = .ended → s.iDeleted c = 0 → x.terminateInternal = true
  watched : x.terminateExternal = true → s.iDeleted c = 0 →
    (x.bClosed = true ∧ x.terminateInternal = false) ∨
      ∃ i phase, s.handlers i = .handling .CLOSE c phase ∧ phase ≠ .replying
  closed : x.bClosed = true → s.iDeleted c = 0 → x.terminateExternal = true

theorem set_connection (h : Owned s) (hx : Allows s c x) : Owned (s.setConnection c x) :=
  { h with
    fresh := by
      intro d hd
      rw [set_connections, if_neg (by
        have : s.iConnections ≤ d := hd
        have := hx.made
        omega)]
      exact h.fresh d hd
    mapped := by
      intro hlive sHash d hm
      have hold := h.mapped hlive sHash d hm
      by_cases hd : d = c
      · rw [hd] at hm hold ⊢
        have hflags := hx.mapped hlive sHash hm
        have hset : (s.setConnection c x).connections c = x := by rw [set_connections, if_pos rfl]
        exact ⟨hold.made, hold.kept, by rw [hset, hflags.1, hold.hash], by rw [hset, hflags.2.1],
          by rw [hset, hflags.2.2]⟩
      · have hset : (s.setConnection c x).connections d = s.connections d := by
          rw [set_connections, if_neg hd]
        exact ⟨hold.made, hold.kept, by rw [hset, hold.hash], by rw [hset, hold.external],
          by rw [hset, hold.still]⟩
    knows := by
      intro i iMode d phase hi
      have hold := h.knows i iMode d phase hi
      refine ⟨hold.made, hold.kept, hold.fits, fun hphase => ?_, fun hphase => ?_⟩
      · rw [set_connections]
        split
        case isTrue hd => exact hx.internal (hd ▸ hold.internal hphase)
        case isFalse => exact hold.internal hphase
      · rw [set_connections]
        split
        case isTrue hd => exact hx.external (hd ▸ hold.external hphase)
        case isFalse => exact hold.external hphase
    closes := by
      intro i d phase hi
      have hold := h.closes i d phase hi
      refine ⟨hold.unmapped, hold.only, fun hreply hterminate => ?_⟩
      rw [set_connections]
      split
      case isTrue hd => exact hx.external (hd ▸ hold.flag hreply hterminate)
      case isFalse => exact hold.flag hreply hterminate
    active := by
      intro d
      rw [set_connections]
      split
      case isTrue hd =>
        rw [hd]
        exact hx.active
      case isFalse => exact h.active d
    ended := by
      intro d
      rw [set_connections]
      split
      case isTrue hd =>
        rw [hd]
        exact hx.ended
      case isFalse => exact h.ended d
    watched := by
      intro d
      rw [Watched, set_connections]
      split
      case isTrue hd =>
        rw [hd]
        exact hx.watched
      case isFalse => exact h.watched d
    closed := by
      intro d
      rw [set_connections]
      split
      case isTrue hd =>
        rw [hd]
        exact hx.closed
      case isFalse => exact h.closed d }

/-! ## Requests -/

theorem made_of_session (h : Owned s) (hsession : (s.connections c).session ≠ .none) :
    c < s.iConnections := by
  by_contra hc
  rw [(h.fresh c (by omega)).1] at hsession
  exact hsession rfl

theorem socket_of_handler (h : Owned s) (hi : s.handlers i ≠ .returned) : i < s.iSockets := by
  by_contra hc
  exact hi (h.sockets i (by omega))

theorem live_of_busy (h : Owned s) (hi : s.handlers i = .handling iMode c phase) :
    s.bDestroyed = false := by
  cases hd : s.bDestroyed with
  | false => rfl
  | true =>
    have hquiet := h.quiet hd i
    rw [hi] at hquiet
    cases hquiet

/-- The next phase of a request, in the same mode and with the same connection. -/
theorem advance (h : Owned s) (hi : s.handlers i = .handling iMode c phase)
    (hreply : phase' ≠ .replying) (hfits : Fits iMode phase')
    (hinternal : phase' = .testExternal ∨ phase' = .deleting →
      (s.connections c).terminateInternal = true)
    (hexternal : phase' = .deleting → (s.connections c).terminateExternal = true)
    (hflag : iMode = .CLOSE → phase' ≠ .terminating → (s.connections c).terminateExternal = true) :
    Owned (s.at i (.handling iMode c phase')) := by
  have hknows := h.knows i iMode c phase hi
  apply at_busy h (live_of_busy h hi) (socket_of_handler h (by simp [hi]))
  · exact ⟨hknows.made, hknows.kept, hfits, hinternal, hexternal⟩
  · intro hclose
    rw [hclose] at hi
    have hcloses := h.closes i c phase hi
    exact ⟨hcloses.unmapped, hcloses.only, fun _ hterminate =>
      hflag hclose hterminate⟩
  · intro c' phase'' hc'
    rw [hi, Handler.handling.injEq] at hc'
    exact ⟨hc'.1, hc'.2.1.symm, hreply⟩

theorem terminate_owned (h : Owned s) (hi : s.handlers i = .handling .CLOSE c .terminating) :
    Owned (s.terminate i .CLOSE c) := by
  have hknows := h.knows i _ c _ hi
  have hcloses := h.closes i c _ hi
  have hset : Owned (s.setConnection c { s.connections c with terminateExternal := true }) := by
    apply set_connection h
    exact {
      made := hknows.made
      mapped := fun _ sHash hm => absurd hm (hcloses.unmapped sHash)
      external := fun _ => rfl
      internal := id
      active := h.active c
      ended := h.ended c
      watched := fun _ _ => Or.inr ⟨i, .terminating, hi, by decide⟩
      closed := fun _ _ => rfl }
  have hflag : ((s.setConnection c
      { s.connections c with terminateExternal := true }).connections c).terminateExternal = true :=
    by rw [set_connections, if_pos rfl]
  rw [RTMPTServer.terminate, used_eq hknows.kept]
  exact advance hset hi (by decide) (by simp [Fits]) (by simp) (by simp) (fun _ _ => hflag)

theorem finished_open (hmode : iMode ≠ .CLOSE) : s.finished i iMode c handler = s.at i handler := by
  rw [RTMPTServer.finished, if_neg hmode]

theorem leave_owned (h : Owned s) (hi : s.handlers i = .handling iMode c phase)
    (hmode : iMode ≠ .CLOSE) (hidle : handler.isBusy = false) : Owned (s.at i handler) := by
  apply at_idle h (socket_of_handler h (by simp [hi])) hidle
  intro c' phase' hc'
  rw [hi, Handler.handling.injEq] at hc'
  exact absurd hc'.1 hmode

/-- The request that closes comes to its end before the session has. -/
theorem finish_owned (h : Owned s) (hi : s.handlers i = .handling .CLOSE c phase)
    (hphase : phase ≠ .replying ∧ phase ≠ .terminating)
    (hinternal : (s.connections c).terminateInternal = false) (hidle : handler.isBusy = false) :
    Owned (s.finished i .CLOSE c handler) := by
  have hcloses := h.closes i c _ hi
  have hflag := hcloses.flag hphase.1 hphase.2
  have hset : Owned (s.setConnection c { s.connections c with bClosed := true }) := by
    apply set_connection h
    exact {
      made := (h.knows i _ c _ hi).made
      mapped := fun _ sHash hm => absurd hm (hcloses.unmapped sHash)
      external := id
      internal := id
      active := h.active c
      ended := h.ended c
      watched := fun _ _ => Or.inl ⟨rfl, hinternal⟩
      closed := fun _ _ => hflag }
  have hsocket : i < s.iSockets := socket_of_handler h (by simp [hi])
  show Owned ((s.setConnection c { s.connections c with bClosed := true }).at i handler)
  apply at_idle hset hsocket hidle
  intro c' phase' hc' _
  rw [show s.handlers i = .handling .CLOSE c' phase' from hc', Handler.handling.injEq] at hi
  rw [← hi.2.1] at hinternal ⊢
  rw [set_connections, if_pos rfl]
  exact ⟨rfl, hinternal⟩

/-! ## Deletions -/

/-- The connection goes, and with it the last handlers that held it. -/
def freed (s : RTMPTServer) (c : ℕ) (x : SharedConnection) (handlers : ℕ → Handler) : RTMPTServer :=
  { (s.deleted c).setConnection c x with handlers := handlers }

theorem freed_owned (h : Owned s) (hkept : s.iDeleted c = 0) (hmade : c < s.iConnections)
    (hunmapped : s.bDestroyed = false → ∀ sHash, (sHash, some c) ∉ s.mUrl2Connection)
    (hsession : x.session = .none ∨ x.session = .ended) {handlers : ℕ → Handler}
    (hfree : ∀ j iMode phase, handlers j ≠ .handling iMode c phase)
    (hrest : ∀ j, handlers j = s.handlers j ∨
      (handlers j).isBusy = false ∧ j < s.iSockets ∧ s.Holds j c) :
    Owned (s.freed c x handlers) := by
  have hbusy : ∀ {j : ℕ} {iMode : RequestMode} {d : ℕ} {phase : Phase},
      handlers j = .handling iMode d phase → s.handlers j = .handling iMode d phase ∧ d ≠ c := by
    intro j iMode d phase hj
    refine ⟨?_, ?_⟩
    · rcases hrest j with hsame | ⟨hidle, -⟩
      · rw [← hsame, hj]
      · rw [hj] at hidle
        cases hidle
    · rintro rfl
      exact hfree j iMode phase hj
  have hdeleted : ∀ {d : ℕ}, (s.freed c x handlers).iDeleted d =
      if d = c then 1 else s.iDeleted d := by
    intro d
    show Function.update s.iDeleted c (s.iDeleted c+1) d = _
    rw [hkept, Function.update_apply]
  have hgone : ∀ {d : ℕ}, (s.freed c x handlers).iDeleted d = 0 → d ≠ c ∧ s.iDeleted d = 0 := by
    intro d hd
    rw [hdeleted] at hd
    split at hd
    · cases hd
    case isFalse hdc => exact ⟨hdc, hd⟩
  have hother : ∀ {d : ℕ}, d ≠ c →
      (s.freed c x handlers).connections d = s.connections d := by
    intro d hd
    exact set_connections.trans (if_neg hd)
  have hself : (s.freed c x handlers).connections c = x := set_connections.trans (if_pos rfl)
  exact { h with
    sockets := by
      intro j hj
      rcases hrest j with hsame | ⟨-, hlt, -⟩
      · exact hsame.trans (h.sockets j hj)
      · exact absurd hlt (Nat.not_lt.mpr hj)
    fresh := by
      intro d hd
      have hdc : d ≠ c := by
        have : s.iConnections ≤ d := hd
        omega
      rw [hother hdc, hdeleted, if_neg hdc]
      exact h.fresh d hd
    mapped := by
      intro hlive sHash d hm
      have hold := h.mapped hlive sHash d hm
      have hdc : d ≠ c := by
        rintro rfl
        exact hunmapped hlive sHash hm
      exact ⟨hold.made, by rw [hdeleted, if_neg hdc, hold.kept], by rw [hother hdc, hold.hash],
        by rw [hother hdc, hold.external], by rw [hother hdc, hold.still]⟩
    quiet := by
      intro hdestroyed j
      rcases hrest j with hsame | ⟨hidle, -⟩
      · rw [show (s.freed c x handlers).handlers j = s.handlers j from hsame]
        exact h.quiet hdestroyed j
      · exact hidle
    knows := by
      intro j iMode d phase hj
      rcases hbusy hj with ⟨hj, hdc⟩
      have hold := h.knows j iMode d phase hj
      exact ⟨hold.made, by rw [hdeleted, if_neg hdc, hold.kept], hold.fits,
        by rw [hother hdc]; exact hold.internal, by rw [hother hdc]; exact hold.external⟩
    closes := by
      intro j d phase hj
      rcases hbusy hj with ⟨hj, hdc⟩
      have hold := h.closes j d phase hj
      exact ⟨hold.unmapped, fun k phase' hk => hold.only k phase' (hbusy hk).1,
        by rw [hother hdc]; exact hold.flag⟩
    active := by
      intro d
      by_cases hdc : d = c
      · rw [hdc, hself]
        intro hnone hended
        rcases hsession with hx | hx
        · exact absurd hx hnone
        · exact absurd hx hended
      · rw [hother hdc, hdeleted, if_neg hdc]
        exact h.active d
    ended := by
      intro d hended hd
      rcases hgone hd with ⟨hdc, hd⟩
      rw [hother hdc] at hended ⊢
      exact h.ended d hended hd
    watched := by
      intro d hexternal hd
      rcases hgone hd with ⟨hdc, hd⟩
      rw [hother hdc] at hexternal
      rcases h.watched d hexternal hd with hleft | ⟨j, phase, hj, hphase⟩
      · exact Or.inl (by rwa [hother hdc])
      · refine Or.inr ⟨j, phase, ?_, hphase⟩
        rcases hrest j with hsame | ⟨-, -, hholds⟩
        · exact hsame.trans hj
        · rw [Holds, hj] at hholds
          exact absurd hholds hdc
    closed := by
      intro d hclosed hd
      rcases hgone hd with ⟨hdc, hd⟩
      rw [hother hdc] at hclosed ⊢
      exact h.closed d hclosed hd
    once := by
      intro d
      rw [hdeleted]
      split
      · exact Nat.le_refl 1
      · exact h.once d }

theorem holder_of_handler {j : ℕ} (hj : s.handlers j = .handling iMode c phase) : s.Holds j c := by
  rw [Holds, hj]

/-- The session deletes what nothing else can reach any more. -/
theorem free_session (h : Owned s) (hkept : s.iDeleted c = 0) (hmade : c < s.iConnections)
    (hholds : ∀ j < s.iSockets, ¬ s.Holds j c)
    (hunmapped : s.bDestroyed = false → ∀ sHash, (sHash, some c) ∉ s.mUrl2Connection) :
    Owned ((s.deleted c).setSession c .ended) := by
  have hfree : ∀ j iMode phase, s.handlers j ≠ .handling iMode c phase := by
    intro j iMode phase hj
    exact hholds j (socket_of_handler h (by simp [hj])) (holder_of_handler hj)
  exact freed_owned (x := { s.connections c with session := .ended }) h hkept hmade hunmapped
    (Or.inr rfl) hfree (fun j => Or.inl rfl)

/-! ## The map -/

theorem withMap_owned (h : Owned s) {m : UrlMap} (hkeys : (m.map Prod.fst).Nodup)
    (hsub : ∀ e ∈ m, e ∈ s.mUrl2Connection) : Owned (s.withMap m) :=
  { h with
    keys := hkeys
    noNull := fun e he => h.noNull e (hsub e he)
    mapped := fun hlive sHash c hm => { h.mapped hlive sHash c (hsub _ hm) with }
    knows := fun i iMode c phase hi => { h.knows i iMode c phase hi with }
    closes := fun i c phase hi => { h.closes i c phase hi with
      unmapped := fun sHash hm => (h.closes i c phase hi).unmapped sHash (hsub _ hm) } }

theorem erase_owned (h : Owned s) (sHash : String) :
    Owned (s.withMap (s.mUrl2Connection.erase sHash)) :=
  withMap_owned h (keys_erase h.keys) fun _ he => (mem_erase.mp he).1

theorem find_owned (h : Owned s) (hlive : s.bDestroyed = false) (hi : s.handlers i = .receiving)
    (hmode : iMode = .IDLE ∨ iMode = .SEND) (sHash : String) :
    Owned (s.findConnection i iMode sHash) := by
  have hsocket : i < s.iSockets := socket_of_handler h (by simp [hi])
  have hleave : ∀ c phase, s.handlers i ≠ .handling .CLOSE c phase := by
    intro c phase
    simp [hi]
  rw [RTMPTServer.findConnection]
  cases hvalue : s.mUrl2Connection.value sHash with
  | none =>
    exact at_idle (erase_owned h sHash) hsocket rfl fun c phase hc => absurd hc (hleave c phase)
  | some c =>
    have hmapped := h.mapped hlive sHash c (mem_of_value hvalue)
    apply at_busy h hlive hsocket
    · exact ⟨hmapped.made, hmapped.kept, by rcases hmode with rfl | rfl <;> simp [Fits], by simp,
        by simp⟩
    · rintro rfl
      simp at hmode
    · intro c' phase hc'
      exact absurd hc' (hleave c' phase)

theorem close_owned (h : Owned s) (hlive : s.bDestroyed = false) (hi : s.handlers i = .receiving)
    {sHash : String} (hvalue : s.mUrl2Connection.value sHash ≠ none) :
    Owned (s.closeConnection i sHash) := by
  have hsocket : i < s.iSockets := socket_of_handler h (by simp [hi])
  rw [RTMPTServer.closeConnection]
  cases hc : s.mUrl2Connection.value sHash with
  | none => exact absurd hc hvalue
  | some c =>
    have hm := mem_of_value hc
    have hmapped := h.mapped hlive sHash c hm
    apply at_busy (erase_owned h sHash) hlive hsocket
    · exact ⟨hmapped.made, hmapped.kept, by simp [Fits], by simp, by simp⟩
    · intro _
      refine ⟨?_, ?_, fun hreply => absurd rfl hreply⟩
      · intro sHash' hm'
        rcases mem_erase.mp hm' with ⟨hm', hne⟩
        exact hne ((h.mapped hlive sHash' c hm').hash.symm.trans hmapped.hash)
      · intro j phase hj
        exact absurd hm ((h.closes j c phase hj).unmapped sHash)
    · intro c' phase hc'
      rw [show s.handlers i = .handling .CLOSE c' phase from hc'] at hi
      cases hi

theorem allocated_owned (h : Owned s) : Owned s.allocated :=
  { h with
    fresh := fun c hc => h.fresh c (Nat.le_of_succ_le hc)
    mapped := fun hlive sHash c hm => { h.mapped hlive sHash c hm with
      made := Nat.lt_succ_of_lt (h.mapped hlive sHash c hm).made }
    knows := fun i iMode c phase hi => { h.knows i iMode c phase hi with
      made := Nat.lt_succ_of_lt (h.knows i iMode c phase hi).made }
    closes := fun i c phase hi => { h.closes i c phase hi with } }

/-- A connection nobody has seen before, with its session. -/
def opened (s : RTMPTServer) (sHash : String) : RTMPTServer :=
  (s.allocated.setConnection s.iConnections ⟨sHash, false, false, .running, false⟩).withMap
    (s.mUrl2Connection.insert sHash (some s.iConnections))

theorem opened_owned (h : Owned s) (hlive : s.bDestroyed = false) (sHash : String) :
    Owned (s.opened sHash) := by
  have hfresh := h.fresh s.iConnections (Nat.le_refl s.iConnections)
  have hunmapped : ∀ sHash', (sHash', some s.iConnections) ∉ s.mUrl2Connection := fun sHash' hm =>
    absurd (h.mapped hlive sHash' _ hm).made (Nat.lt_irrefl s.iConnections)
  have hset : Owned (s.allocated.setConnection s.iConnections
      ⟨sHash, false, false, .running, false⟩) := by
    apply set_connection (allocated_owned h)
    exact {
      made := Nat.lt_succ_self s.iConnections
      mapped := fun _ sHash' hm => absurd hm (hunmapped sHash')
      external := by
        intro hflag
        rw [show s.allocated.connections s.iConnections = .new from hfresh.1] at hflag
        cases hflag
      internal := by
        intro hflag
        rw [show s.allocated.connections s.iConnections = .new from hfresh.1] at hflag
        cases hflag
      active := fun _ _ => ⟨hfresh.2, rfl⟩
      ended := by simp
      watched := by simp
      closed := by simp }
  exact { hset with
    keys := keys_insert h.keys
    noNull := by
      intro e he
      rcases mem_insert.mp he with rfl | ⟨he, -⟩
      · simp
      · exact h.noNull e he
    mapped := by
      intro _ sHash' d hm
      rcases mem_insert.mp hm with heq | ⟨hm, -⟩
      · obtain ⟨rfl, hd⟩ := Prod.mk.inj heq
        obtain rfl := Option.some.inj hd
        have hself : (s.opened sHash').connections s.iConnections =
            ⟨sHash', false, false, .running, false⟩ := set_connections.trans (if_pos rfl)
        exact ⟨Nat.lt_succ_self _, hfresh.2, by rw [hself], by rw [hself], by rw [hself]⟩
      · exact { hset.mapped hlive sHash' d hm with }
    knows := fun i iMode d phase hi => { hset.knows i iMode d phase hi with }
    closes := by
      intro i d phase hi
      have hold := hset.closes i d phase hi
      refine ⟨?_, hold.only, hold.flag⟩
      intro sHash' hm
      rcases mem_insert.mp hm with heq | ⟨hm, -⟩
      · obtain rfl := Option.some.inj (Prod.mk.inj heq).2
        exact absurd (h.knows i _ _ phase hi).made (Nat.lt_irrefl s.iConnections)
      · exact hold.unmapped sHash' hm }

theorem open_owned (h : Owned s) (hlive : s.bDestroyed = false) (hi : s.handlers i = .receiving)
    (sHash : String) : Owned (s.openConnection i sHash) := by
  have hsocket : i < s.iSockets := socket_of_handler h (by simp [hi])
  have hleave : ∀ c phase, s.handlers i ≠ .handling .CLOSE c phase := by
    intro c phase
    simp [hi]
  rw [RTMPTServer.openConnection]
  split
  · exact at_idle (allocated_owned h) hsocket rfl fun c phase hc => absurd hc (hleave c phase)
  · have hopened := opened_owned h hlive sHash
    have hmade : s.iConnections < (s.opened sHash).iConnections := Nat.lt_succ_self _
    have hkept : (s.opened sHash).iDeleted s.iConnections = 0 := (h.fresh _ (Nat.le_refl _)).2
    apply at_busy hopened hlive hsocket
    · exact ⟨hmade, hkept, by simp [Fits], by simp, by simp⟩
    · intro hmode
      cases hmode
    · intro c phase hc
      exact absurd hc (hleave c phase)

/-! ## The end of a request -/

theorem delete_owned (h : Owned s) (hi : s.handlers i = .handling iMode c .deleting)
    (halone : ∀ j < s.iSockets, j ≠ i → ¬ s.Holds j c) : Owned (s.delete i iMode c) := by
  have hknows := h.knows i iMode c _ hi
  have hinternal := hknows.internal (Or.inr rfl)
  have hexternal := hknows.external rfl
  have hsocket : i < s.iSockets := socket_of_handler h (by simp [hi])
  have hunmapped : s.bDestroyed = false → ∀ sHash, (sHash, some c) ∉ s.mUrl2Connection := by
    intro hlive sHash hm
    have hflag := (h.mapped hlive sHash c hm).external
    rw [hexternal] at hflag
    cases hflag
  have hsession : (s.connections c).session = .none ∨ (s.connections c).session = .ended := by
    by_contra hactive
    rw [not_or] at hactive
    have hflag := (h.active c hactive.1 hactive.2).2
    rw [hinternal] at hflag
    cases hflag
  have herased := erase_owned h (s.connections c).hash
  have hother : ∀ {j : ℕ}, j ≠ i → ∀ iMode phase, s.handlers j ≠ .handling iMode c phase := by
    intro j hji iMode phase hj
    exact halone j (socket_of_handler h (by simp [hj])) hji (holder_of_handler hj)
  have hreceiving : ∀ j iMode phase,
      Function.update s.handlers i .receiving j ≠ .handling iMode c phase := by
    intro j iMode phase hj
    rw [Function.update_apply] at hj
    split at hj
    · cases hj
    case isFalse hji => exact hother hji iMode phase hj
  have hreleased : ∀ j, Function.update s.handlers i .receiving j = s.handlers j ∨
      (Function.update s.handlers i .receiving j).isBusy = false ∧ j < s.iSockets ∧
        s.Holds j c := by
    intro j
    rw [Function.update_apply]
    split
    case isTrue hji => exact Or.inr ⟨rfl, hji ▸ hsocket, hji ▸ holder_of_handler hi⟩
    case isFalse => exact Or.inl rfl
  have hgone := freed_owned herased hknows.kept hknows.made
    (fun hlive sHash hm => hunmapped hlive sHash (mem_erase.mp hm).1)
    (x := { s.connections c with bClosed := (s.connections c).bClosed || decide (iMode = .CLOSE) })
    hsession hreceiving hreleased
  rw [RTMPTServer.delete, used_eq hknows.kept]
  by_cases hmode : iMode = .CLOSE
  · rw [RTMPTServer.finished, if_pos hmode]
    simp only [hmode, decide_true, Bool.or_true] at hgone
    exact hgone
  · rw [finished_open hmode]
    simp only [hmode, decide_false, Bool.or_false] at hgone
    have hsame : (s.withMap (s.mUrl2Connection.erase (s.connections c).hash)).freed c
        (s.connections c) (Function.update s.handlers i .receiving) =
        ((s.withMap (s.mUrl2Connection.erase (s.connections c).hash)).deleted c).at i
          .receiving := by
      simp [freed, RTMPTServer.setConnection, RTMPTServer.at, RTMPTServer.deleted,
        RTMPTServer.withMap]
    rw [← hsame]
    exact hgone

theorem handle_owned (h : Owned s) {bSent : Bool} (hi : s.handlers i = .handling iMode c phase)
    (hclean : s.CleanHandle i bSent (.handling iMode c phase)) :
    Owned (s.handle i iMode c bSent phase) := by
  have hknows := h.knows i iMode c phase hi
  have hused := used_eq hknows.kept
  have hcloses : iMode = .CLOSE → Closes s i c phase := by
    rintro rfl
    exact h.closes i c phase hi
  cases phase with
  | replying =>
    rw [RTMPTServer.handle, RTMPTServer.reply, hused, ite_self]
    cases iMode with
    | IDLE => exact absurd rfl hknows.fits.1
    | SEND => exact absurd rfl hknows.fits.1
    | OPEN =>
      cases bSent with
      | true => exact advance h hi (by decide) (by simp [Fits]) (by simp) (by simp) (by simp)
      | false => exact leave_owned h hi (by decide) rfl
    | CLOSE =>
      rw [if_pos (show bSent = true from hclean)]
      exact advance h hi (by decide) (by simp [Fits]) (by simp) (by simp)
        (fun _ hphase => absurd rfl hphase)
  | tunnelling =>
    have hmode : iMode = .IDLE ∨ iMode = .SEND := by
      have hfits := hknows.fits
      cases iMode <;> simp_all [Fits]
    have hopen : iMode ≠ .CLOSE := by
      rcases hmode with rfl | rfl <;> decide
    rw [RTMPTServer.handle, RTMPTServer.tunnel, hused]
    split
    · exact advance h hi (by decide) (by rcases hmode with rfl | rfl <;> simp [Fits]) (by simp)
        (by simp) (fun hclose => absurd hclose hopen)
    · exact leave_owned h hi hopen rfl
  | terminating =>
    have hmode : iMode = .CLOSE := by
      have hfits := hknows.fits
      cases iMode <;> simp_all [Fits]
    rw [hmode] at hi ⊢
    exact terminate_owned h hi
  | testInternal =>
    rw [RTMPTServer.handle, RTMPTServer.testInternal, hused]
    split
    case isTrue hinternal =>
      exact advance h hi (by decide) (by cases iMode <;> simp [Fits]) (fun _ => hinternal)
        (by simp) (fun hclose _ => (hcloses hclose).flag (by decide) (by decide))
    case isFalse hinternal =>
      by_cases hmode : iMode = .CLOSE
      · rw [hmode] at hi ⊢
        exact finish_owned h hi (by decide) (by simpa using hinternal) rfl
      · rw [finished_open hmode]
        exact leave_owned h hi hmode rfl
  | testExternal =>
    rw [RTMPTServer.handle, RTMPTServer.testExternal, hused]
    split
    case isTrue hexternal =>
      exact advance h hi (by decide) (by cases iMode <;> simp [Fits])
        (fun _ => hknows.internal (Or.inl rfl)) (fun _ => hexternal) (fun _ _ => hexternal)
    case isFalse hexternal =>
      have hmode : iMode ≠ .CLOSE := fun hclose =>
        hexternal ((hcloses hclose).flag (by decide) (by decide))
      rw [finished_open hmode]
      exact leave_owned h hi hmode rfl
  | deleting =>
    apply delete_owned h hi
    cases iMode <;> exact hclean

/-! ## Sessions -/

theorem setSession_owned (h : Owned s) {session : Session} (hmade : c < s.iConnections)
    (hactive : s.iDeleted c = 0 ∧ (s.connections c).terminateInternal = false)
    (hsession : session ≠ .ended) : Owned (s.setSession c session) := by
  apply set_connection h
  exact {
    made := hmade
    mapped := fun hlive sHash hm =>
      ⟨rfl, (h.mapped hlive sHash c hm).external, (h.mapped hlive sHash c hm).still⟩
    external := id
    internal := id
    active := fun _ _ => hactive
    ended := fun hended => absurd hended hsession
    watched := h.watched c
    closed := h.closed c }

theorem ending_owned (h : Owned s) {session : Session}
    (hsession : (s.connections c).session = session) (hclean : s.CleanEnding c session)
    {s' : RTMPTServer} (hstep : s.nextEnding c session = some s') : Owned s' := by
  have hmade : session ≠ .none → c < s.iConnections := by
    rw [← hsession]
    exact made_of_session h
  have hactive : session ≠ .none → session ≠ .ended →
      s.iDeleted c = 0 ∧ (s.connections c).terminateInternal = false := by
    rw [← hsession]
    exact h.active c
  cases session with
  | none => cases hstep
  | ended => cases hstep
  | running =>
    have hactive := hactive (by decide) (by decide)
    obtain rfl := Option.some.inj hstep
    split
    case isTrue hdestroyed =>
      apply free_session h hactive.1 (hmade (by decide))
      · intro j _ hj
        have hquiet := h.quiet hdestroyed j
        rw [Holds] at hj
        cases hhandler : s.handlers j <;> simp_all [Handler.isBusy]
      · intro hlive
        rw [hdestroyed] at hlive
        cases hlive
    case isFalse =>
      rw [RTMPTServer.endSession, used_eq hactive.1]
      exact setSession_owned h (hmade (by decide)) hactive (by split <;> decide)
  | testStopped =>
    have hactive := hactive (by decide) (by decide)
    obtain rfl := Option.some.inj hstep
    exact setSession_owned h (hmade (by decide)) hactive (by simp)
  | ending bDelete =>
    have hkept := (hactive (by simp) (by simp)).1
    have hbelow := hmade (by simp)
    obtain rfl := Option.some.inj hstep
    cases bDelete with
    | true =>
      exact free_session h hkept hbelow hclean.1 fun _ sHash hm => hclean.2 _ hm rfl
    | false =>
      rw [RTMPTServer.endFinish, if_neg (by decide), used_eq hkept]
      apply set_connection h
      exact {
        made := hbelow
        mapped := fun hlive sHash hm =>
          ⟨rfl, (h.mapped hlive sHash c hm).external, (h.mapped hlive sHash c hm).still⟩
        external := id
        internal := fun _ => rfl
        active := by simp
        ended := fun _ _ => rfl
        watched := by
          intro hflag
          rw [show (s.connections c).terminateExternal = false from hclean] at hflag
          cases hflag
        closed := h.closed c }

/-! ## The end of the server -/

/-- Nothing has come between the map and what its entries point at. -/
def Entries (s : RTMPTServer) (m : UrlMap) : Prop :=
  ∀ e ∈ m, ∃ c, e.2 = some c ∧ c < s.iConnections ∧ s.iDeleted c = 0 ∧
    (s.connections c).hash = e.1

theorem deleted_owned (h : Owned s) (hdestroyed : s.bDestroyed = true) (hmade : c < s.iConnections)
    (hkept : s.iDeleted c = 0) (hinternal : (s.connections c).terminateInternal = true) :
    Owned (s.deleted c) := by
  have hsession : (s.connections c).session = .none ∨ (s.connections c).session = .ended := by
    by_contra hactive
    rw [not_or] at hactive
    have hflag := (h.active c hactive.1 hactive.2).2
    rw [hinternal] at hflag
    cases hflag
  have hsame : s.freed c (s.connections c) s.handlers = s.deleted c := by
    simp [freed, RTMPTServer.setConnection, RTMPTServer.deleted]
  rw [← hsame]
  apply freed_owned h hkept hmade
  · intro hlive
    rw [hdestroyed] at hlive
    cases hlive
  · exact hsession
  · intro j iMode phase hj
    have hquiet := h.quiet hdestroyed j
    rw [hj] at hquiet
    cases hquiet
  · exact fun j => Or.inl rfl

theorem destructEntries_owned (m : UrlMap) (h : Owned s) (hdestroyed : s.bDestroyed = true)
    (hkeys : (m.map Prod.fst).Nodup) (hentries : s.Entries m) :
    Owned (m.foldl (fun s e => s.destructEntry e.2) s) := by
  induction m generalizing s with
  | nil => exact h
  | cons e m ih =>
    rw [List.map_cons, List.nodup_cons] at hkeys
    rcases hentries e (List.mem_cons_self ..) with ⟨c, hc, hmade, hkept, hhash⟩
    rw [List.foldl_cons, hc, RTMPTServer.destructEntry, used_eq hkept]
    split
    case isTrue hinternal =>
      apply ih (deleted_owned h hdestroyed hmade hkept hinternal) hdestroyed hkeys.2
      intro e' he'
      rcases hentries e' (List.mem_cons_of_mem e he') with ⟨d, hd, hmade', hkept', hhash'⟩
      refine ⟨d, hd, hmade', ?_, hhash'⟩
      have hdc : d ≠ c := by
        rintro rfl
        apply hkeys.1
        rw [← hhash, hhash']
        exact List.mem_map_of_mem he'
      show Function.update s.iDeleted c (s.iDeleted c+1) d = 0
      rw [Function.update_of_ne hdc, hkept']
    case isFalse =>
      exact ih h hdestroyed hkeys.2 fun e' he' => hentries e' (List.mem_cons_of_mem e he')

/-- As the destructor finds it: all threads have come to an end. -/
def marked (s : RTMPTServer) : RTMPTServer := { s with bDestroyed := true }

theorem destructEntry_marked (e : Option ℕ) :
    (s.destructEntry e).marked = s.marked.destructEntry e := by
  cases e with
  | none => rfl
  | some c =>
    simp only [RTMPTServer.destructEntry]
    split
    case isTrue hinternal =>
      rw [if_pos (show (s.marked.connections c).terminateInternal = true from hinternal)]
      rfl
    case isFalse hinternal =>
      rw [if_neg (show ¬ (s.marked.connections c).terminateInternal = true from hinternal)]
      rfl

theorem destruct_eq : s.destruct =
    s.mUrl2Connection.foldl (fun s e => s.destructEntry e.2) s.marked := by
  rw [RTMPTServer.destruct]
  generalize s.mUrl2Connection = m
  induction m generalizing s with
  | nil => rfl
  | cons e m ih =>
    rw [List.foldl_cons, List.foldl_cons, ← destructEntry_marked]
    exact ih

theorem destruct_owned (h : Owned s) (hlive : s.bDestroyed = false) (hquiet : s.quiet = true) :
    Owned s.destruct := by
  rw [RTMPTServer.quiet, Bool.and_eq_true, List.all_eq_true] at hquiet
  have hidle : ∀ i, (s.handlers i).isBusy = false := by
    intro i
    by_cases hi : i < s.iSockets
    · simpa using hquiet.1 i (List.mem_range.mpr hi)
    · rw [h.sockets i (by omega)]
      rfl
  have hmarked : Owned s.marked :=
    { h with
      quiet := fun _ => hidle
      mapped := by
        intro hfalse
        cases hfalse
      knows := fun i iMode c phase hi => { h.knows i iMode c phase hi with }
      closes := fun i c phase hi => { h.closes i c phase hi with } }
  rw [destruct_eq]
  apply destructEntries_owned s.mUrl2Connection hmarked rfl h.keys
  rintro ⟨sHash, v⟩ he
  cases v with
  | none => exact absurd rfl (h.noNull _ he)
  | some c =>
    have hmapped := h.mapped hlive sHash c he
    exact ⟨c, rfl, hmapped.made, hmapped.kept, hmapped.hash⟩

/-! ## Runs -/

theorem step_owned (h : Owned s) {a : Action} (hclean : s.Clean a) {s' : RTMPTServer}
    (hstep : s.step a = some s') : Owned s' := by
  cases a with
  | accept =>
    rw [RTMPTServer.step] at hstep
    split_ifs at hstep with hdestroyed
    obtain rfl := Option.some.inj hstep
    have hmore : Owned { s with iSockets := s.iSockets+1 } :=
      { h with
        sockets := fun i hi => h.sockets i (Nat.le_of_succ_le hi)
        mapped := fun hlive sHash c hm => { h.mapped hlive sHash c hm with }
        knows := fun i iMode c phase hi => { h.knows i iMode c phase hi with }
        closes := fun i c phase hi => { h.closes i c phase hi with } }
    apply at_idle hmore (Nat.lt_succ_self s.iSockets) rfl
    intro c phase hc
    have hreturned := h.sockets s.iSockets (Nat.le_refl _)
    rw [show s.handlers s.iSockets = .handling .CLOSE c phase from hc] at hreturned
    cases hreturned
  | hangUp i =>
    rw [RTMPTServer.step] at hstep
    split_ifs at hstep with hreceiving
    obtain rfl := Option.some.inj hstep
    apply at_idle h (socket_of_handler h (by simp [hreceiving.2])) rfl
    intro c phase hc
    rw [hreceiving.2] at hc
    cases hc
  | request i sMode sHash =>
    rw [RTMPTServer.step] at hstep
    split_ifs at hstep with hreceiving
    obtain rfl := Option.some.inj hstep
    rcases hreceiving with ⟨hlive, hi⟩
    cases sMode with
    | fcs => exact h
    | «open» => exact open_owned h hlive hi sHash
    | idle => exact find_owned h hlive hi (Or.inl rfl) sHash
    | send => exact find_owned h hlive hi (Or.inr rfl) sHash
    | close => exact close_owned h hlive hi hclean
    | unknown =>
      apply at_idle h (socket_of_handler h (by simp [hi])) rfl
      intro c phase hc
      rw [hi] at hc
      cases hc
  | handle i bSent =>
    rw [RTMPTServer.step] at hstep
    cases hi : s.handlers i with
    | receiving =>
      rw [hi] at hstep
      cases hstep
    | returned =>
      rw [hi] at hstep
      cases hstep
    | handling iMode c phase =>
      rw [hi] at hstep
      simp only at hstep
      split_ifs at hstep
      obtain rfl := Option.some.inj hstep
      apply handle_owned h hi
      rw [← hi]
      exact hclean
  | useConnection c =>
    rw [RTMPTServer.step] at hstep
    split_ifs at hstep with hrunning
    obtain rfl := Option.some.inj hstep
    rw [used_eq (h.active c (by simp [hrunning]) (by simp [hrunning])).1]
    exact h
  | endSession c => exact ending_owned h rfl hclean hstep
  | stop =>
    obtain rfl := Option.some.inj hstep
    exact { h with
      mapped := fun hlive sHash c hm => { h.mapped hlive sHash c hm with }
      knows := fun i iMode c phase hi => { h.knows i iMode c phase hi with }
      closes := fun i c phase hi => { h.closes i c phase hi with } }
  | destruct =>
    rw [RTMPTServer.step] at hstep
    split_ifs at hstep with hready
    obtain rfl := Option.some.inj hstep
    simp only [Bool.and_eq_true, Bool.not_eq_true'] at hready
    exact destruct_owned h hready.1.2 hready.2

/-! ## Closed connections -/

theorem apart_at (hapart : Apart s) (hnew : ∀ c phase, handler = .handling .CLOSE c phase →
    (s.connections c).bClosed = false) : Apart (s.at i handler) := by
  intro j c phase hj
  rw [at_handlers] at hj
  split at hj
  · exact hnew c phase hj
  · exact hapart j c phase hj

theorem apart_set (hapart : Apart s) (hx : x.bClosed = (s.connections c).bClosed) :
    Apart (s.setConnection c x) := by
  intro j d phase hj
  have hold := hapart j d phase hj
  rw [set_connections]
  split
  case isTrue hd => rw [hx, ← hd, hold]
  case isFalse => exact hold

theorem apart_step (hapart : Apart s) (hi : s.handlers i = .handling iMode c phase) :
    Apart (s.at i (.handling iMode c phase')) := by
  apply apart_at hapart
  intro d phase'' heq
  obtain ⟨rfl, rfl, -⟩ := Handler.handling.inj heq
  exact hapart i c phase hi

theorem apart_finished (hapart : Apart s) (hidle : handler.isBusy = false)
    (honly : iMode = .CLOSE → ∀ j phase, s.handlers j = .handling .CLOSE c phase → j = i) :
    Apart (s.finished i iMode c handler) := by
  have hnew : ∀ d phase', handler = .handling .CLOSE d phase' →
      (s.connections d).bClosed = false := by
    rintro d phase' rfl
    cases hidle
  rw [RTMPTServer.finished]
  split
  case isTrue hmode =>
    intro j d phase' hj
    have hbefore := apart_at (i := i) hapart hnew j d phase' hj
    rw [set_connections]
    split
    case isTrue hd =>
      rw [hd] at hj
      have hj : (s.at i handler).handlers j = .handling .CLOSE c phase' := hj
      rw [at_handlers] at hj
      split at hj
      · rw [hj] at hidle
        cases hidle
      case isFalse hji => exact absurd (honly hmode j phase' hj) hji
    case isFalse => exact hbefore
  case isFalse => exact apart_at hapart hnew

theorem handle_apart (h : Owned s) (hapart : Apart s) (bSent : Bool)
    (hi : s.handlers i = .handling iMode c phase) : Apart (s.handle i iMode c bSent phase) := by
  have hused := used_eq (h.knows i iMode c phase hi).kept
  have honly : iMode = .CLOSE → ∀ j phase, s.handlers j = .handling .CLOSE c phase → j = i := by
    rintro rfl
    exact (h.closes i c phase hi).only
  cases phase with
  | replying =>
    rw [RTMPTServer.handle, RTMPTServer.reply, hused, ite_self]
    split
    · exact apart_step hapart hi
    · exact apart_finished hapart rfl honly
  | tunnelling =>
    rw [RTMPTServer.handle, RTMPTServer.tunnel, hused]
    split
    · exact apart_step hapart hi
    · apply apart_at hapart
      intro c phase hc
      cases hc
  | terminating =>
    rw [RTMPTServer.handle, RTMPTServer.terminate, hused]
    exact apart_step (apart_set hapart rfl) hi
  | testInternal =>
    rw [RTMPTServer.handle, RTMPTServer.testInternal, hused]
    split
    · exact apart_step hapart hi
    · exact apart_finished hapart rfl honly
  | testExternal =>
    rw [RTMPTServer.handle, RTMPTServer.testExternal, hused]
    split
    · exact apart_step hapart hi
    · exact apart_finished hapart rfl honly
  | deleting =>
    rw [RTMPTServer.handle, RTMPTServer.delete, hused]
    exact apart_finished hapart rfl honly

theorem analyze_apart (h : Owned s) (hapart : Apart s) (hlive : s.bDestroyed = false)
    (sMode : Command) (sHash : String) : Apart (s.analyzeUrl i sMode sHash) := by
  have hidle : ∀ {t : RTMPTServer}, Apart t → Apart (t.at i .returned) := by
    intro t ht
    apply apart_at ht
    intro c phase hc
    cases hc
  have hfind : ∀ {iMode : RequestMode}, iMode ≠ .CLOSE → Apart (s.findConnection i iMode sHash) := by
    intro iMode hmode
    rw [RTMPTServer.findConnection]
    split
    · exact hidle hapart
    · apply apart_at hapart
      intro d phase hd
      exact absurd (Handler.handling.inj hd).1 hmode
  cases sMode with
  | fcs => exact hapart
  | «open» =>
    rw [RTMPTServer.analyzeUrl, RTMPTServer.openConnection]
    split
    · exact hidle hapart
    · apply apart_at
      · have hfresh := (h.fresh s.iConnections (Nat.le_refl _)).1
        exact apart_set (s := s.allocated) hapart (by
          rw [show s.allocated.connections s.iConnections = .new from hfresh]
          rfl)
      · intro d phase hd
        cases (Handler.handling.inj hd).1
  | idle => exact hfind (by decide)
  | send => exact hfind (by decide)
  | close =>
    rw [RTMPTServer.analyzeUrl, RTMPTServer.closeConnection]
    split
    · exact hidle hapart
    case _ c hc =>
      apply apart_at hapart
      intro d phase hd
      obtain rfl := (Handler.handling.inj hd).2.1
      exact (h.mapped hlive sHash c (mem_of_value hc)).still
  | unknown => exact hidle hapart

theorem ending_apart (h : Owned s) (hapart : Apart s) {session : Session} {s' : RTMPTServer}
    (hsession : (s.connections c).session = session)
    (hstep : s.nextEnding c session = some s') : Apart s' := by
  cases session with
  | none => cases hstep
  | ended => cases hstep
  | running =>
    have hkept := (h.active c (by rw [hsession]; decide) (by rw [hsession]; decide)).1
    obtain rfl := Option.some.inj hstep
    split
    · exact apart_set (s := s.deleted c) hapart rfl
    · rw [RTMPTServer.endSession, used_eq hkept]
      exact apart_set hapart rfl
  | testStopped =>
    obtain rfl := Option.some.inj hstep
    exact apart_set hapart rfl
  | ending bDelete =>
    have hkept := (h.active c (by rw [hsession]; simp) (by rw [hsession]; simp)).1
    obtain rfl := Option.some.inj hstep
    rw [RTMPTServer.endFinish, used_eq hkept]
    split
    · exact apart_set (s := s.deleted c) hapart rfl
    · exact apart_set hapart rfl

theorem step_apart (h : Owned s) (hapart : Apart s) {a : Action} {s' : RTMPTServer}
    (hstep : s.step a = some s') : Apart s' := by
  cases a with
  | accept =>
    rw [RTMPTServer.step] at hstep
    split_ifs at hstep
    obtain rfl := Option.some.inj hstep
    apply apart_at (s := { s with iSockets := s.iSockets+1 }) hapart
    intro c phase hc
    cases hc
  | hangUp i =>
    rw [RTMPTServer.step] at hstep
    split_ifs at hstep
    obtain rfl := Option.some.inj hstep
    apply apart_at hapart
    intro c phase hc
    cases hc
  | request i sMode sHash =>
    rw [RTMPTServer.step] at hstep
    split_ifs at hstep with hreceiving
    obtain rfl := Option.some.inj hstep
    exact analyze_apart h hapart hreceiving.1 sMode sHash
  | handle i bSent =>
    rw [RTMPTServer.step] at hstep
    cases hi : s.handlers i with
    | receiving =>
      rw [hi] at hstep
      cases hstep
    | returned =>
      rw [hi] at hstep
      cases hstep
    | handling iMode c phase =>
      rw [hi] at hstep
      simp only at hstep
      split_ifs at hstep
      obtain rfl := Option.some.inj hstep
      exact handle_apart h hapart bSent hi
  | useConnection c =>
    rw [RTMPTServer.step] at hstep
    split_ifs at hstep
    obtain rfl := Option.some.inj hstep
    exact hapart
  | endSession c => exact ending_apart h hapart rfl hstep
  | stop =>
    obtain rfl := Option.some.inj hstep
    exact hapart
  | destruct =>
    rw [RTMPTServer.step] at hstep
    split_ifs at hstep with hready
    obtain rfl := Option.some.inj hstep
    simp only [Bool.and_eq_true, Bool.not_eq_true'] at hready
    have howned := destruct_owned h hready.1.2 hready.2
    intro i c phase hi
    cases howned.quiet rfl i ▸ congrArg Handler.isBusy hi

theorem run_sound (h : Owned s) (hapart : Apart s) {actions : List Action}
    (hclean : CleanRun actions s) {s' : RTMPTServer} (hrun : run actions s = some s') :
    Sound s' := by
  induction actions generalizing s with
  | nil =>
    obtain rfl := Option.some.inj hrun
    exact sound_of_owned h hapart
  | cons a actions ih =>
    rw [run] at hrun
    cases hstep : s.step a with
    | none =>
      rw [hstep] at hrun
      cases hrun
    | some t =>
      rw [hstep] at hrun
      exact ih (step_owned h hclean.1 hstep) (step_apart h hapart hstep) (hclean.2 t hstep) hrun

/-- In every state a clean run reaches, no entry of the map is `NULL`, nothing has been deleted
twice or used after it was deleted, and what both sides are done with has been deleted. -/
theorem freed_once (actions : List Action) (s' : RTMPTServer) (hclean : CleanRun actions new)
    (hrun : run actions new = some s') : Sound s' :=
  run_sound new_owned (by simp [Apart, RTMPTServer.new]) hclean hrun

theorem cleanRun_cons {a : Action} {actions : List Action} {t : RTMPTServer} (hclean : s.Clean a)
    (hstep : s.step a = some t) (hrest : CleanRun actions t) : CleanRun (a::actions) s := by
  refine ⟨hclean, ?_⟩
  intro s' hs'
  rw [hstep] at hs'
  obtain rfl := Option.some.inj hs'
  exact hrest

/-- A session ends while its connection is idle, and the client closes it afterwards. -/
def closedLast : List Action :=
  [.accept, .request 0 .open "a", .handle 0 true, .handle 0 true, .request 0 .send "a",
    .useConnection 0, .handle 0 true, .handle 0 true, .endSession 0, .endSession 0, .endSession 0,
    .request 0 .close "a", .handle 0 true, .handle 0 true, .handle 0 true, .handle 0 true,
    .handle 0 true, .stop, .destruct]

theorem freed_once_example : ∃ s', run closedLast new = some s' ∧ s'.iDeleted 0 = 1 ∧ Sound s' := by
  have hclean : CleanRun closedLast new := by
    repeat (first | exact trivial | (refine cleanRun_cons (by decide) rfl ?_))
  exact ⟨_, rfl, rfl, freed_once closedLast _ hclean rfl⟩

/-- A request to close what does not exist leaves a `NULL` pointer in the map. -/
theorem unknown_hash : ∃ actions s', run actions new = some s' ∧ ¬ Sound s' := by
  refine ⟨[.accept, .request 0 .close "a"], _, rfl, ?_⟩
  intro hsound
  exact hsound.noNull ("a", none) (by decide) rfl

end RTMPTServer
end Sirannon.RTMPT
