import Sirannon.MediaPacket

/-!
# Routing

A processor hands its packets to the processors configured for their route,
and when there are none to those configured for route 0. The last list found
is kept in a cache of one entry; a route without processors gets a copy of the
list of route 0 when the first packet falls back on it.
-/

set_option autoImplicit false

namespace Sirannon.Routing
open Bits Media Std

variable {P : Type}

structure MediaProcessor (P : Type) where
  vRouting : TreeMap ℤ (List P)
  iCachedRoute : ℤ
  /-- The list pointed at is the one of this route. -/
  pCachedRoute : Option ℤ

def MediaProcessor.new : MediaProcessor P := ⟨{}, -2, none⟩

/-- The list of a route; looking it up makes an empty one. -/
def MediaProcessor.routes (s : MediaProcessor P) (xroute : ℤ) : List P :=
  (s.vRouting[xroute]?).getD []

/-- What `[]` leaves in the map. -/
def MediaProcessor.touched (s : MediaProcessor P) (xroute : ℤ) : MediaProcessor P :=
  { s with vRouting := s.vRouting.insert xroute (s.routes xroute) }

/-- The copy constructor. -/
def copy (other : MediaPacket) : MediaPacket where
  type := other.type
  content := other.content
  mux := other.mux
  codec := other.codec
  frame := other.frame
  desc := other.desc
  framenumber := other.framenumber
  unitnumber := other.unitnumber
  subframenumber := other.subframenumber
  xroute := other.xroute
  xstream := other.xstream
  dts := other.dts
  pts := other.pts
  inc := other.inc
  T := other.T
  D := other.D
  Q := other.Q
  frameend := other.frameend
  framestart := other.framestart
  error := other.error
  key := other.key
  oSend := other.oSend
  iFront := other.iFront
  bytes := other.bytes
  max_size := other.max_size

/-- The last processor gets the packet itself, each one before it a packet whose copy goes on. -/
def send : List P → MediaPacket → List (P × MediaPacket)
  | [], _ => []
  | [pProcessor], pPckt => [(pProcessor, pPckt)]
  | pProcessor::rest, pPckt => (pProcessor, pPckt)::send rest (copy pPckt)

/-- The copy of route 0 that a route without processors gets. -/
def MediaProcessor.fallback (s : MediaProcessor P) (xroute : ℤ) : MediaProcessor P :=
  { s.touched 0 with vRouting := (s.touched 0).vRouting.insert xroute ((s.touched 0).routes 0) }

def MediaProcessor.cached (s : MediaProcessor P) (xroute : ℤ) (pRoute : Option ℤ) :
    MediaProcessor P :=
  { s with iCachedRoute := xroute, pCachedRoute := pRoute }

def MediaProcessor.pointed (s : MediaProcessor P) : Option ℤ → List P
  | none => []
  | some xroute => s.routes xroute

/-- Finds the list for a route. -/
def MediaProcessor.find (s : MediaProcessor P) (xroute : ℤ) :
    Except SirannonException (Option ℤ) × MediaProcessor P :=
  if xroute = s.iCachedRoute then (.ok s.pCachedRoute, s)
  else if s.vRouting.isEmpty then (.ok none, s.cached xroute none)
  else if (s.touched xroute).routes xroute = [] then
    if ((s.touched xroute).fallback xroute).routes xroute = [] then
      (.error (valueError "No route"), (s.touched xroute).fallback xroute)
    else (.ok (some xroute), ((s.touched xroute).fallback xroute).cached xroute (some xroute))
  else (.ok (some xroute), (s.touched xroute).cached xroute (some xroute))

/-- Without a route the packet goes nowhere. -/
def MediaProcessor.route (s : MediaProcessor P) (pPckt : MediaPacket) :
    List (P × MediaPacket) × MediaProcessor P :=
  match s.find pPckt.xroute with
  | (.error _, s') => ([], s')
  | (.ok pRoute, s') => (send (s'.pointed pRoute) pPckt, s')

def MediaProcessor.setRoute (s : MediaProcessor P) (xroute : ℤ) (proc : P) : MediaProcessor P where
  vRouting := s.vRouting.insert xroute (s.routes xroute ++ [proc])
  iCachedRoute := -2
  pCachedRoute := none

def cleared [DecidableEq P] (proc : P) (oVector : List P) : Option (List P) :=
  if oVector.filter (· ≠ proc) = [] then none else some (oVector.filter (· ≠ proc))

def MediaProcessor.clearRoute [DecidableEq P] (s : MediaProcessor P) (proc : P) : MediaProcessor P where
  vRouting := s.vRouting.filterMap fun _ oVector => cleared proc oVector
  iCachedRoute := -2
  pCachedRoute := none

/-! ## What routing is for -/

/-- The processors configured for each route. -/
abbrev Config (P : Type) := ℤ → List P

inductive Op (P : Type)
  | setRoute (xroute : ℤ) (proc : P)
  | clearRoute (proc : P)
  | route (pPckt : MediaPacket)

def Config.configured [DecidableEq P] (c : Config P) : Op P → Config P
  | .setRoute xroute proc => Function.update c xroute (c xroute ++ [proc])
  | .clearRoute proc => fun x => (c x).filter (· ≠ proc)
  | .route _ => c

def Config.targets (c : Config P) (xroute : ℤ) : List P :=
  if c xroute = [] then c 0 else c xroute

attribute [grind =] Config.targets

def Config.delivered (c : Config P) : Op P → List (P × MediaPacket)
  | .route pPckt => (c.targets pPckt.xroute).map fun p => (p, pPckt)
  | _ => []

/-- What the operations should bring about, one list for each. -/
def Config.deliveries [DecidableEq P] (c : Config P) : List (Op P) → List (List (P × MediaPacket))
  | [] => []
  | op::ops => c.delivered op::(c.configured op).deliveries ops

def MediaProcessor.stepped [DecidableEq P] (s : MediaProcessor P) :
    Op P → List (P × MediaPacket) × MediaProcessor P
  | .setRoute xroute proc => ([], s.setRoute xroute proc)
  | .clearRoute proc => ([], s.clearRoute proc)
  | .route pPckt => s.route pPckt

def MediaProcessor.deliveries [DecidableEq P] (s : MediaProcessor P) :
    List (Op P) → List (List (P × MediaPacket))
  | [] => []
  | op::ops => (s.stepped op).1::(s.stepped op).2.deliveries ops

/-- The configured lists and the stored ones agree, except for copies of route 0. -/
structure Coherent (c : Config P) (s : MediaProcessor P) : Prop where
  stored : ∀ x, s.routes x = c x ∨ c x = [] ∧ s.routes x = c 0
  found : ∀ k, s.pCachedRoute = some k →
    s.iCachedRoute = k ∧ s.routes k = c.targets k ∧ s.routes k ≠ []
  missed : s.pCachedRoute = none → s.iCachedRoute = -2 ∨ s.vRouting.isEmpty

/-- No list is a copy of route 0's that the operation would leave stale, and no packet has the
route that marks an empty cache. -/
def Clean (c : Config P) (s : MediaProcessor P) : Op P → Prop
  | .setRoute xroute _ =>
    (c xroute = [] → s.routes xroute = []) ∧
      (xroute = 0 → ∀ y, c y = [] → s.routes y = [])
  | .clearRoute _ => True
  | .route pPckt => pPckt.xroute = -2 → s.iCachedRoute = -2 → s.pCachedRoute = none →
      c.targets (-2) = []

def AllClean [DecidableEq P] (c : Config P) (s : MediaProcessor P) : List (Op P) → Prop
  | [] => True
  | op::ops => Clean c s op ∧ AllClean (c.configured op) (s.stepped op).2 ops

/-! ## Lists -/

theorem copy_eq (pPckt : MediaPacket) : copy pPckt = pPckt := rfl

theorem send_eq (ps : List P) (pPckt : MediaPacket) :
    send ps pPckt = ps.map fun p => (p, pPckt) := by
  induction ps with
  | nil => rfl
  | cons p ps ih =>
    cases ps with
    | nil => rfl
    | cons q qs => rw [send, copy_eq, ih, List.map_cons, List.map_cons] <;> simp

variable {c : Config P} {s : MediaProcessor P} {x y : ℤ} {proc : P}

theorem routes_inserted (s : MediaProcessor P) (x y : ℤ) (ps : List P) :
    ({ s with vRouting := s.vRouting.insert x ps } : MediaProcessor P).routes y =
      if x = y then ps else s.routes y := by
  rw [MediaProcessor.routes, TreeMap.getElem?_insert]
  by_cases h : x = y
  · simp [h]
  · simp [h, MediaProcessor.routes]

theorem touched_routes (s : MediaProcessor P) (x y : ℤ) :
    (s.touched x).routes y = s.routes y := by
  rw [MediaProcessor.touched, routes_inserted]
  by_cases h : x = y
  · rw [if_pos h, h]
  · rw [if_neg h]

theorem fallback_routes (s : MediaProcessor P) (x y : ℤ) :
    (s.fallback x).routes y = if x = y then s.routes 0 else s.routes y := by
  rw [MediaProcessor.fallback, routes_inserted, touched_routes, touched_routes]

theorem setRoute_routes (s : MediaProcessor P) (x y : ℤ) (proc : P) :
    (s.setRoute x proc).routes y = if x = y then s.routes x ++ [proc] else s.routes y :=
  routes_inserted s x y _

theorem clearRoute_routes [DecidableEq P] (s : MediaProcessor P) (proc : P) (x : ℤ) :
    (s.clearRoute proc).routes x = (s.routes x).filter (· ≠ proc) := by
  rw [MediaProcessor.routes, MediaProcessor.clearRoute, TreeMap.getElem?_filterMap,
    MediaProcessor.routes]
  cases hx : s.vRouting[x]? with
  | none => simp
  | some ps =>
    show (cleared proc ps).getD [] = ps.filter (· ≠ proc)
    rw [cleared]
    by_cases h : ps.filter (· ≠ proc) = []
    · rw [if_pos h, h]
      rfl
    · rw [if_neg h]
      rfl

theorem empty_routes (h : s.vRouting.isEmpty = true) (x : ℤ) : s.routes x = [] := by
  have hx : x ∉ s.vRouting := by
    intro hmem
    rw [TreeMap.isEmpty_eq_false_iff_exists_mem.mpr ⟨x, hmem⟩] at h
    cases h
  rw [MediaProcessor.routes, TreeMap.getElem?_eq_none hx]
  rfl

/-! ## Looking a route up -/

/-- The map alone: the configured lists and copies of route 0. -/
def Stored (c : Config P) (s : MediaProcessor P) : Prop :=
  ∀ x, s.routes x = c x ∨ c x = [] ∧ s.routes x = c 0

theorem stored_zero (h : Stored c s) : s.routes 0 = c 0 := by
  rcases h 0 with h | ⟨-, h⟩
  · exact h
  · exact h

/-- Where nothing is stored nothing is configured. -/
theorem config_nil (h : Stored c s) (hx : s.routes x = []) : c x = [] := by
  rcases h x with h | ⟨h, -⟩
  · rw [← h, hx]
  · exact h

theorem stored_targets (h : Stored c s) (hx : s.routes x ≠ []) : s.routes x = c.targets x := by
  rw [Config.targets]
  rcases h x with h | ⟨hnil, h⟩
  · rw [if_neg fun hnil => hx (h.trans hnil), h]
  · rw [if_pos hnil, h]

theorem empty_targets (h : Stored c s) (he : s.vRouting.isEmpty = true) (x : ℤ) :
    c.targets x = [] := by
  rw [Config.targets, if_pos (config_nil h (empty_routes he x))]
  exact config_nil h (empty_routes he 0)

theorem stored_found (h : Stored c s) {t : MediaProcessor P} (hx : t.routes x = c.targets x)
    (hsame : ∀ y, x ≠ y → t.routes y = s.routes y) : Stored c t := by
  intro y
  by_cases hxy : x = y
  · subst hxy
    rw [Config.targets] at hx
    by_cases hnil : c x = []
    · rw [if_pos hnil] at hx
      exact .inr ⟨hnil, hx⟩
    · rw [if_neg hnil] at hx
      exact .inl hx
  · rw [hsame y hxy]
    exact h y

/-- What a lookup that misses the cache finds, and what it leaves in the cache. -/
structure Missed (c : Config P) (s : MediaProcessor P) (x : ℤ)
    (r : Except SirannonException (Option ℤ) × MediaProcessor P) : Prop where
  stored : Stored c r.2
  same : ∀ y, x ≠ y → r.2.routes y = s.routes y
  failed : ∀ e, r.1 = .error e → c.targets x = [] ∧ s.routes x = [] ∧
    s.vRouting.isEmpty = false ∧ r.2.iCachedRoute = s.iCachedRoute ∧
    r.2.pCachedRoute = s.pCachedRoute
  found : ∀ pRoute, r.1 = .ok pRoute → r.2.pointed pRoute = c.targets x ∧
    r.2.iCachedRoute = x ∧ r.2.pCachedRoute = pRoute ∧
    (pRoute = none ∧ r.2.vRouting.isEmpty = true ∨ pRoute = some x ∧ c.targets x ≠ [])

theorem find_missed (h : Stored c s) (hmiss : x ≠ s.iCachedRoute) : Missed c s x (s.find x) := by
  rw [MediaProcessor.find, if_neg hmiss]
  by_cases hempty : s.vRouting.isEmpty = true
  · have hnil := empty_targets h hempty x
    rw [if_pos hempty]
    refine ⟨h, fun y _ => rfl, ?_, ?_⟩
    · intro e he
      cases he
    · intro pRoute hfound
      cases hfound
      exact ⟨hnil.symm, rfl, rfl, .inl ⟨rfl, hempty⟩⟩
  rw [if_neg hempty, touched_routes]
  by_cases hnil : s.routes x = []
  · have htargets : c.targets x = c 0 := by rw [Config.targets, if_pos (config_nil h hnil)]
    have hroutes : ∀ y, ((s.touched x).fallback x).routes y =
        if x = y then c 0 else s.routes y := by
      intro y
      rw [fallback_routes, touched_routes, touched_routes, stored_zero h]
    have hx : ((s.touched x).fallback x).routes x = c.targets x := by
      rw [hroutes x, if_pos rfl, htargets]
    have hsame : ∀ y, x ≠ y → ((s.touched x).fallback x).routes y = s.routes y := by
      intro y hxy
      rw [hroutes y, if_neg hxy]
    rw [if_pos hnil]
    by_cases hnone : c.targets x = []
    · rw [if_pos (hx.trans hnone)]
      refine ⟨stored_found h hx hsame, hsame, ?_, ?_⟩
      · intro e he
        exact ⟨hnone, hnil, by simpa using hempty, rfl, rfl⟩
      · intro pRoute hfound
        cases hfound
    · rw [if_neg (fun h0 => hnone (hx.symm.trans h0))]
      refine ⟨stored_found h hx hsame, hsame, ?_, ?_⟩
      · intro e he
        cases he
      · intro pRoute hfound
        cases hfound
        exact ⟨hx, rfl, rfl, .inr ⟨rfl, hnone⟩⟩
  · have hx : (s.touched x).routes x = c.targets x := by
      rw [touched_routes, stored_targets h hnil]
    have hsame : ∀ y, x ≠ y → (s.touched x).routes y = s.routes y :=
      fun y _ => touched_routes s x y
    rw [if_neg hnil]
    refine ⟨stored_found h hx hsame, hsame, ?_, ?_⟩
    · intro e he
      cases he
    · intro pRoute hfound
      cases hfound
      rw [touched_routes] at hx
      exact ⟨by rw [← hx]; exact touched_routes s x x, rfl, rfl,
        .inr ⟨rfl, fun h0 => hnil (hx.trans h0)⟩⟩

/-- A lookup gives the list configured, or none when there is none. -/
theorem find_coherent (h : Coherent c s)
    (hx : x = -2 → s.iCachedRoute = -2 → s.pCachedRoute = none → c.targets (-2) = []) :
    Coherent c (s.find x).2 ∧ match (s.find x).1 with
      | .error _ => c.targets x = []
      | .ok pRoute => (s.find x).2.pointed pRoute = c.targets x := by
  by_cases hcached : x = s.iCachedRoute
  · rw [MediaProcessor.find, if_pos hcached]
    refine ⟨h, ?_⟩
    show s.pointed s.pCachedRoute = c.targets x
    cases hp : s.pCachedRoute with
    | none =>
      have hnil : c.targets x = [] := by
        rcases h.missed hp with hmark | hempty
        · rw [hcached, hmark]
          exact hx (hcached.trans hmark) hmark hp
        · exact empty_targets h.stored hempty x
      rw [hnil]
      rfl
    | some k =>
      rcases h.found k hp with ⟨hk, hroutes, -⟩
      rw [hcached, hk]
      exact hroutes
  have hmissed := find_missed h.stored hcached
  cases hfind : (s.find x).1 with
  | error e =>
    rcases hmissed.failed e hfind with ⟨htargets, hnil, hempty, hi, hp⟩
    refine ⟨⟨hmissed.stored, ?_, ?_⟩, htargets⟩
    · intro k hk
      rw [hp] at hk
      rcases h.found k hk with ⟨hik, hroutes, hne⟩
      have hxk : x ≠ k := by
        rintro rfl
        exact hne hnil
      rw [hi, hmissed.same k hxk]
      exact ⟨hik, hroutes, hne⟩
    · intro hnone
      rw [hp] at hnone
      rcases h.missed hnone with hmark | he
      · rw [hi]
        exact .inl hmark
      · rw [he] at hempty
        cases hempty
  | ok pRoute =>
    rcases hmissed.found pRoute hfind with ⟨hpointed, hi, hp, hkind⟩
    refine ⟨⟨hmissed.stored, ?_, ?_⟩, hpointed⟩
    · intro k hk
      rw [hp] at hk
      subst hk
      rcases hkind with ⟨hnone, -⟩ | ⟨hsome, hne⟩
      · cases hnone
      · cases hsome
        exact ⟨hi, hpointed, fun h0 => hne (hpointed.symm.trans h0)⟩
    · intro hnone
      rw [hp] at hnone
      subst hnone
      rcases hkind with ⟨-, hempty⟩ | ⟨hsome, -⟩
      · exact .inr hempty
      · cases hsome

theorem route_coherent (h : Coherent c s) {pPckt : MediaPacket}
    (hx : Clean c s (.route pPckt)) :
    (s.route pPckt).1 = (c.targets pPckt.xroute).map (fun p => (p, pPckt)) ∧
      Coherent c (s.route pPckt).2 := by
  rcases find_coherent h hx with ⟨hcoherent, hfound⟩
  rw [MediaProcessor.route]
  cases hfind : s.find pPckt.xroute with
  | mk r t =>
    rw [hfind] at hcoherent hfound
    cases r with
    | error e =>
      refine ⟨?_, hcoherent⟩
      rw [show c.targets pPckt.xroute = [] from hfound]
      rfl
    | ok pRoute =>
      refine ⟨?_, hcoherent⟩
      rw [← show t.pointed pRoute = c.targets pPckt.xroute from hfound, ← send_eq]

theorem new_coherent : Coherent (fun _ => []) (MediaProcessor.new : MediaProcessor P) := by
  refine ⟨fun x => .inl ?_, (fun k hk => by cases hk), fun _ => .inl rfl⟩
  exact empty_routes TreeMap.isEmpty_emptyc x

theorem reset_route {t : MediaProcessor P} (hcached : t.iCachedRoute = -2)
    (hnone : t.pCachedRoute = none) {pPckt : MediaPacket} (hne : t.routes pPckt.xroute ≠ []) :
    (t.route pPckt).1.map Prod.fst = [] ∨
      (t.route pPckt).1.map Prod.fst = t.routes pPckt.xroute := by
  rw [MediaProcessor.route, MediaProcessor.find, hcached, hnone]
  by_cases hx : pPckt.xroute = -2
  · rw [if_pos hx]
    exact .inl rfl
  have hempty : ¬ t.vRouting.isEmpty = true := fun h => hne (empty_routes h _)
  rw [if_neg hx, if_neg hempty, touched_routes, if_neg hne]
  right
  show (send ((t.touched pPckt.xroute).routes pPckt.xroute) pPckt).map Prod.fst = _
  rw [touched_routes, send_eq, List.map_map]
  exact List.map_id _

/-! ## Configuring -/

variable [DecidableEq P]

theorem setRoute_coherent (h : Coherent c s) (hclean : Clean c s (.setRoute x proc)) :
    Coherent (c.configured (.setRoute x proc)) (s.setRoute x proc) := by
  refine ⟨?_, (fun k hk => by cases hk), fun _ => .inl rfl⟩
  intro y
  rw [setRoute_routes, Config.configured]
  by_cases hxy : x = y
  · subst hxy
    left
    rw [if_pos rfl, Function.update_self]
    rcases h.stored x with hx | ⟨hnil, -⟩
    · rw [hx]
    · rw [hnil, hclean.1 hnil]
  · rw [if_neg hxy, Function.update_of_ne (Ne.symm hxy)]
    by_cases hzero : x = 0
    · left
      rcases h.stored y with hy | ⟨hnil, -⟩
      · exact hy
      · rw [hnil, hclean.2 hzero y hnil]
    · rw [Function.update_of_ne (Ne.symm hzero)]
      exact h.stored y

theorem clearRoute_coherent (h : Coherent c s) :
    Coherent (c.configured (.clearRoute proc)) (s.clearRoute proc) := by
  refine ⟨?_, (fun k hk => by cases hk), fun _ => .inl rfl⟩
  intro y
  rw [clearRoute_routes]
  rcases h.stored y with hy | ⟨hnil, hy⟩
  · rw [hy]
    exact .inl rfl
  · rw [hy]
    right
    constructor
    · show (c y).filter (· ≠ proc) = []
      rw [hnil]
      rfl
    · rfl

theorem stepped_coherent (h : Coherent c s) {op : Op P} (hclean : Clean c s op) :
    Coherent (c.configured op) (s.stepped op).2 := by
  cases op with
  | setRoute x proc => exact setRoute_coherent h hclean
  | clearRoute proc => exact clearRoute_coherent h
  | route pPckt => exact (route_coherent h hclean).2

theorem stepped_delivered (h : Coherent c s) {op : Op P} (hclean : Clean c s op) :
    (s.stepped op).1 = c.delivered op := by
  cases op with
  | setRoute x proc => rfl
  | clearRoute proc => rfl
  | route pPckt => exact (route_coherent h hclean).1

theorem deliveries_coherent (ops : List (Op P)) (h : Coherent c s) (hclean : AllClean c s ops) :
    s.deliveries ops = c.deliveries ops := by
  induction ops generalizing c s with
  | nil => rfl
  | cons op ops ih =>
    rw [MediaProcessor.deliveries, Config.deliveries, stepped_delivered h hclean.1,
      ih (stepped_coherent h hclean.1) hclean.2]

/-- As long as no copy of route 0 is left stale, packets go where they are configured to go. -/
theorem routed_as_configured (ops : List (Op P))
    (hclean : AllClean (fun _ => []) (MediaProcessor.new : MediaProcessor P) ops) :
    MediaProcessor.new.deliveries ops = Config.deliveries (fun _ => []) ops :=
  deliveries_coherent ops new_coherent hclean

/-! ## Stale copies -/

/-- Configuring a route while a copy would be left stale shows on some route at once. -/
theorem stale_copy_seen (h : Coherent c s) (hnot : ¬ Clean c s (.setRoute x proc)) :
    ∃ y, ∀ pPckt : MediaPacket, pPckt.xroute = y →
      ((s.setRoute x proc).route pPckt).1.map Prod.fst ≠
        (c.configured (.setRoute x proc)).targets y := by
  have hcopy : ∀ y, c y = [] → s.routes y ≠ [] → s.routes y = c 0 ∧ c 0 ≠ [] := by
    intro y hnil hne
    rcases h.stored y with hy | ⟨-, hy⟩
    · exact absurd (hy.trans hnil) hne
    · exact ⟨hy, fun h0 => hne (hy.trans h0)⟩
  have hdiffer : ∀ y, (s.setRoute x proc).routes y ≠ [] →
      (c.configured (.setRoute x proc)).targets y ≠ [] →
      (c.configured (.setRoute x proc)).targets y ≠ (s.setRoute x proc).routes y →
      ∀ pPckt : MediaPacket, pPckt.xroute = y →
        ((s.setRoute x proc).route pPckt).1.map Prod.fst ≠
          (c.configured (.setRoute x proc)).targets y := by
    intro y hne htargets hneq pPckt hy
    subst hy
    have hroute : ((s.setRoute x proc).route pPckt).1.map Prod.fst = [] ∨
        ((s.setRoute x proc).route pPckt).1.map Prod.fst =
          (s.setRoute x proc).routes pPckt.xroute := reset_route rfl rfl hne
    rcases hroute with hr | hr
    · rw [hr]
      exact htargets.symm
    · rw [hr]
      exact hneq.symm
  rw [Clean, Classical.not_and_iff_not_or_not] at hnot
  rcases hnot with hnot | hnot
  · push Not at hnot
    rcases hnot with ⟨hnil, hne⟩
    rcases hcopy x hnil hne with ⟨hx, hzero⟩
    have hstored : (s.setRoute x proc).routes x = c 0 ++ [proc] := by
      rw [setRoute_routes, if_pos rfl, hx]
    have htargets : (c.configured (.setRoute x proc)).targets x = [proc] := by
      rw [Config.targets, Config.configured, Function.update_self, hnil]
      rfl
    refine ⟨x, hdiffer x ?_ ?_ ?_⟩
    · simp [hstored]
    · simp [htargets]
    · simp [hstored, htargets, hzero]
  · push Not at hnot
    rcases hnot with ⟨rfl, y, hnil, hne⟩
    rcases hcopy y hnil hne with ⟨hy, hzero⟩
    have hy0 : 0 ≠ y := by
      rintro rfl
      exact hzero hnil
    have hstored : (s.setRoute 0 proc).routes y = c 0 := by
      rw [setRoute_routes, if_neg hy0, hy]
    have htargets : (c.configured (.setRoute 0 proc)).targets y = c 0 ++ [proc] := by
      rw [Config.targets, Config.configured, Function.update_of_ne hy0.symm, if_pos hnil,
        Function.update_self]
    refine ⟨y, hdiffer y ?_ ?_ ?_⟩
    · rw [hstored]
      exact hzero
    · simp [htargets]
    · simp [hstored, htargets]

def onRoute (xroute : ℤ) : MediaPacket :=
  { MediaPacket.new .media .video 0 with xroute := xroute }

/-- Two processors for route 1 and one for route 0, to which route 2 falls back. -/
theorem routed_as_configured_fallback :
    (MediaProcessor.new : MediaProcessor ℕ).deliveries
        [.setRoute 0 7, .setRoute 1 8, .route (onRoute 2), .route (onRoute 1)] =
      Config.deliveries (fun _ => [])
        [.setRoute 0 7, .setRoute 1 8, .route (onRoute 2), .route (onRoute 1)] ∧
    Config.deliveries (fun _ => ([] : List ℕ))
        [.setRoute 0 7, .setRoute 1 8, .route (onRoute 2), .route (onRoute 1)] =
      [[], [], [(7, onRoute 2)], [(8, onRoute 1)]] := by
  constructor
  · apply routed_as_configured
    refine ⟨⟨fun _ => ?_, fun _ y _ => ?_⟩, ⟨fun _ => ?_, fun h => ?_⟩, fun h => ?_, fun h => ?_,
      trivial⟩
    · decide +kernel
    · exact empty_routes TreeMap.isEmpty_emptyc y
    · decide +kernel
    · cases h
    · cases h
    · cases h
  · decide +kernel

/-- Route 1 keeps the processor of route 0 it fell back on, next to the one configured for it. -/
theorem stale_copy :
    (MediaProcessor.new : MediaProcessor ℕ).deliveries
        [.setRoute 0 7, .route (onRoute 1), .setRoute 1 8, .route (onRoute 1)] =
      [[], [(7, onRoute 1)], [], [(7, onRoute 1), (8, onRoute 1)]] ∧
    Config.deliveries (fun _ => ([] : List ℕ))
        [.setRoute 0 7, .route (onRoute 1), .setRoute 1 8, .route (onRoute 1)] =
      [[], [(7, onRoute 1)], [], [(8, onRoute 1)]] := by
  constructor <;> decide +kernel

end Sirannon.Routing
