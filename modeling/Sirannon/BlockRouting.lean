import Sirannon.Routing

/-!
# Blocks

A block keeps the routing it is configured with and hands a copy to the
component out of its inner configuration, which routes its packets by it. Out
adds fallback entries to the copy and remembers where in it the last list was;
a processor cleared from the block stays in the copy.
-/

set_option autoImplicit false

namespace Sirannon.BlockRouting
open Bits Media Std Routing

variable {P : Type}

/-- The component `out`; `dangling` where its cached pointer is into a map that was replaced. -/
structure Out (P : Type) where
  proc : MediaProcessor P
  dangling : Bool

def Out.setRouting (o : Out P) (oRouting : TreeMap ℤ (List P)) : Out P where
  proc := { o.proc with vRouting := oRouting }
  dangling := o.dangling || o.proc.pCachedRoute.isSome

/-- Whether the pointer is still the one from before after a packet with this route. -/
def Out.kept (o : Out P) (xroute : ℤ) : Bool :=
  if xroute = o.proc.iCachedRoute then true
  else match (o.proc.find xroute).1 with
    | .error _ => true
    | .ok _ => false

def Out.route (o : Out P) (pPckt : MediaPacket) :
    Except SirannonException (List (P × MediaPacket)) × Out P :=
  if pPckt.xroute = o.proc.iCachedRoute ∧ o.proc.pCachedRoute.isSome ∧ o.dangling then
    (.error (undefinedBehaviour "entry of a replaced map"), o)
  else (.ok (o.proc.route pPckt).1, ⟨(o.proc.route pPckt).2, o.dangling && o.kept pPckt.xroute⟩)

structure Block (P : Type) where
  base : MediaProcessor P
  out : Option (Out P)

def Block.new : Block P := ⟨MediaProcessor.new, none⟩

def Block.initOut (b : Block P) : Block P :=
  { b with out := b.out.map fun o => o.setRouting b.base.vRouting }

/-- `out` as the inner configuration made it, where it has such a component. -/
def Block.init (b : Block P) (out : Option (MediaProcessor P)) : Block P :=
  { b with out := out.map fun proc => ⟨proc, false⟩ }.initOut

def Block.setRoute (b : Block P) (iRoute : ℤ) (pProc : P) : Block P where
  base := b.base.setRoute iRoute pProc
  out := b.out.map fun o => o.setRouting (b.base.setRoute iRoute pProc).vRouting

/-- What the map of `out` has for a route. -/
def Out.listed (o : Out P) (xroute : ℤ) : List P :=
  if o.proc.routes xroute = [] then o.proc.routes 0 else o.proc.routes xroute

theorem listed_targets {given : Config P} {o : Out P} (h : Stored given o.proc) (x : ℤ) : o.listed x = given.targets x := by
  unfold Out.listed
  by_cases hnil : o.proc.routes x = []
  · rw [if_pos hnil, Config.targets, if_pos (config_nil h hnil), stored_zero h]
  · rw [if_neg hnil, stored_targets h hnil]

theorem routed_iff {qs rs : List P} {pPckt : MediaPacket} :
    (Except.ok (qs.map fun p => (p, pPckt)) : Except SirannonException _) =
      .ok (rs.map fun p => (p, pPckt)) ↔ rs = qs := by
  have hinjective : Function.Injective fun p : P => (p, pPckt) := by
    intro p q h
    exact (Prod.mk.inj h).1
  rw [Except.ok.injEq, hinjective.list_map.eq_iff]
  exact eq_comm

variable [DecidableEq P]

/-- Inherited: `out` is not told. -/
def Block.clearRoute (b : Block P) (pProc : P) : Block P :=
  { b with base := b.base.clearRoute pProc }

/-! ## Runs of a block -/

inductive Step (P : Type)
  | setRoute (iRoute : ℤ) (pProc : P)
  | clearRoute (pProc : P)
  | init (out : Option (MediaProcessor P))
  | emit (pPckt : MediaPacket)

def Block.stepped (b : Block P) : Step P → Block P
  | .setRoute iRoute pProc => b.setRoute iRoute pProc
  | .clearRoute pProc => b.clearRoute pProc
  | .init out => b.init out
  | .emit pPckt => { b with out := b.out.map fun o => (o.route pPckt).2 }

def configured (c : Config P) : Step P → Config P
  | .setRoute iRoute pProc => c.configured (.setRoute iRoute pProc)
  | .clearRoute pProc => c.configured (.clearRoute pProc)
  | _ => c

/-- Where the step has `out` route a packet, it goes to the processors configured for it. -/
def Routes (c : Config P) (b : Block P) : Step P → Prop
  | .emit pPckt => ∀ o, b.out = some o →
    (o.route pPckt).1 = .ok ((c.targets pPckt.xroute).map fun p => (p, pPckt))
  | _ => True

/-- Every packet of a run is routed as the block is configured at that moment. -/
def RoutesAll (c : Config P) (b : Block P) : List (Step P) → Prop
  | [] => True
  | a::steps => Routes c b a ∧ RoutesAll (configured c a) (b.stepped a) steps

/-- The processors cleared since the routing was last handed to `out`. -/
def gone (ps : List P) : Step P → List P
  | .setRoute _ _ => []
  | .clearRoute pProc => pProc::ps
  | .init _ => []
  | .emit _ => ps

/-- The packet does not find its route in the cache from before a handover, and none of the
processors listed for it has been cleared since. -/
def Fresh (ps : List P) (o : Out P) (pPckt : MediaPacket) : Prop :=
  if pPckt.xroute = o.proc.iCachedRoute then
    match o.proc.pCachedRoute with
    | none => ∀ q, q ∈ o.proc.routes pPckt.xroute ∨ q ∈ o.proc.routes 0 → q ∈ ps
    | some _ => o.dangling = false ∧ ∀ q ∈ o.listed pPckt.xroute, q ∉ ps
  else ∀ q ∈ o.listed pPckt.xroute, q ∉ ps

def FreshStep (ps : List P) (b : Block P) : Step P → Prop
  | .emit pPckt => ∀ o, b.out = some o → Fresh ps o pPckt
  | _ => True

def AllFresh (ps : List P) (b : Block P) : List (Step P) → Prop
  | [] => True
  | a::steps => FreshStep ps b a ∧ AllFresh (gone ps a) (b.stepped a) steps

/-! ## The copy -/

/-- `c` is `given` without the processors in `ps`. -/
def Without (given : Config P) (ps : List P) (c : Config P) : Prop :=
  ∀ x, c x = (given x).filter (· ∉ ps)

variable {c given : Config P} {ps : List P} {o : Out P} {b : Block P}

theorem without_nil (c : Config P) : Without c [] c := by
  intro x
  simp

theorem without_cleared (h : Without given ps c) (proc : P) :
    Without given (proc::ps) (c.configured (.clearRoute proc)) := by
  intro x
  show (c x).filter (· ≠ proc) = _
  rw [h x, List.filter_filter]
  apply List.filter_congr
  intro q _
  simp

theorem targets_same (h : Without given ps c) (x : ℤ) :
    c.targets x = given.targets x ↔ ∀ q ∈ given.targets x, q ∉ ps := by
  have hkept (y : ℤ) (hy : ∀ q ∈ given y, q ∉ ps) : c y = given y := by
    rw [h y, List.filter_eq_self]
    simpa using hy
  have hleft (y : ℤ) : ∀ q ∈ c y, q ∉ ps := by
    intro q hq
    rw [h y, List.mem_filter] at hq
    simpa using hq.2
  constructor
  · intro hsame q hq
    rw [← hsame, Config.targets] at hq
    split_ifs at hq
    · exact hleft 0 q hq
    · exact hleft x q hq
  · intro hall
    unfold Config.targets at hall ⊢
    by_cases hnil : given x = []
    · have hx : c x = [] := by rw [h x, hnil]; rfl
      rw [if_pos hnil] at hall ⊢
      rw [if_pos hx, hkept 0 hall]
    · rw [if_neg hnil] at hall ⊢
      rw [hkept x hall, if_neg hnil]

theorem targets_none (h : Without given ps c) (x : ℤ) :
    c.targets x = [] ↔ ∀ q, q ∈ given x ∨ q ∈ given 0 → q ∈ ps := by
  have hnil (y : ℤ) : c y = [] ↔ ∀ q ∈ given y, q ∈ ps := by
    rw [h y, List.filter_eq_nil_iff]
    simp
  unfold Config.targets
  by_cases hx : c x = []
  · rw [if_pos hx, hnil 0]
    rw [hnil x] at hx
    constructor
    · rintro h0 q (hq | hq)
      · exact hx q hq
      · exact h0 q hq
    · intro hall q hq
      exact hall q (.inr hq)
  · rw [if_neg hx]
    constructor
    · intro h0
      exact absurd h0 hx
    · intro hall
      exact (hnil x).mpr fun q hq => hall q (.inl hq)

/-- The copy `out` has is of what the block had at the last handover, and a pointer that does not
dangle is to the list of its route. -/
structure Copied (c : Config P) (ps : List P) (o : Out P) (given : Config P) : Prop where
  without : Without given ps c
  stored : Stored given o.proc
  cached : ∀ k, o.proc.pCachedRoute = some k → o.dangling = false →
    o.proc.iCachedRoute = k ∧ o.proc.routes k = given.targets k ∧ o.proc.routes k ≠ []

theorem hit_pointed {k : ℤ} {pPckt : MediaPacket} (h : Copied c ps o given)
    (hit : pPckt.xroute = o.proc.iCachedRoute) (hp : o.proc.pCachedRoute = some k)
    (hd : o.dangling = false) :
    (o.proc.route pPckt).1 = (given.targets pPckt.xroute).map fun p => (p, pPckt) := by
  rcases h.cached k hp hd with ⟨hk, hroutes, -⟩
  rw [MediaProcessor.route, MediaProcessor.find, if_pos hit, hp]
  show send (o.proc.routes k) pPckt = _
  rw [hroutes, send_eq, hit, hk]

/-- A packet of `out` goes where it is configured to go exactly when it is fresh. -/
theorem emit_fresh (h : Copied c ps o given) (pPckt : MediaPacket) :
    (o.route pPckt).1 = .ok ((c.targets pPckt.xroute).map fun p => (p, pPckt)) ↔
      Fresh ps o pPckt := by
  have hlisted := listed_targets h.stored pPckt.xroute
  unfold Out.route Fresh
  by_cases hit : pPckt.xroute = o.proc.iCachedRoute
  · rw [if_pos hit]
    cases hp : o.proc.pCachedRoute with
    | none =>
      have hroute : (o.proc.route pPckt).1 = ([] : List P).map fun p => (p, pPckt) := by
        rw [MediaProcessor.route, MediaProcessor.find, if_pos hit, hp]
        rfl
      have hgiven : (∀ q, q ∈ given pPckt.xroute ∨ q ∈ given 0 → q ∈ ps) ↔
          ∀ q, q ∈ o.proc.routes pPckt.xroute ∨ q ∈ o.proc.routes 0 → q ∈ ps := by
        rw [stored_zero h.stored]
        rcases h.stored pPckt.xroute with hx | ⟨hnil, hx⟩
        · rw [hx]
        · rw [hnil, hx]
          simp
      simp only [Option.isSome_none, Bool.false_eq_true, false_and, and_false, if_false]
      rw [hroute, routed_iff, targets_none h.without, hgiven]
    | some k =>
      simp only [Option.isSome_some, true_and, hit]
      rw [← hit, hlisted]
      by_cases hd : o.dangling = true
      · rw [if_pos hd]
        simp [hd]
      · rw [if_neg hd]
        have hd' : o.dangling = false := by simpa using hd
        rw [hit_pointed h hit hp hd', routed_iff, targets_same h.without]
        simp [hd']
  · rw [if_neg (fun hall => hit hall.1), if_neg hit, hlisted]
    have hmissed := find_missed h.stored hit
    have hroute : (o.proc.route pPckt).1 =
        (given.targets pPckt.xroute).map fun p => (p, pPckt) := by
      rw [MediaProcessor.route]
      cases hfind : o.proc.find pPckt.xroute with
      | mk r t =>
        rw [hfind] at hmissed
        cases r with
        | error e =>
          rw [(hmissed.failed e rfl).1]
          rfl
        | ok pRoute =>
          show send (t.pointed pRoute) pPckt = _
          rw [show t.pointed pRoute = _ from (hmissed.found pRoute rfl).1, send_eq]
    rw [hroute, routed_iff, targets_same h.without]

theorem emit_copied (h : Copied c ps o given) (pPckt : MediaPacket) :
    Copied c ps (o.route pPckt).2 given := by
  unfold Out.route
  by_cases hbad : pPckt.xroute = o.proc.iCachedRoute ∧ o.proc.pCachedRoute.isSome ∧ o.dangling
  · rw [if_pos hbad]
    exact h
  rw [if_neg hbad]
  by_cases hit : pPckt.xroute = o.proc.iCachedRoute
  · have hsame : (o.proc.route pPckt).2 = o.proc := by
      rw [MediaProcessor.route, MediaProcessor.find, if_pos hit]
    have hkept : o.kept pPckt.xroute = true := by rw [Out.kept, if_pos hit]
    rw [hsame, hkept, Bool.and_true]
    exact h
  · have hmissed := find_missed h.stored hit
    have hstate : (o.proc.route pPckt).2 = (o.proc.find pPckt.xroute).2 := by
      rw [MediaProcessor.route]
      cases hfind : o.proc.find pPckt.xroute with
      | mk r t => cases r <;> rfl
    rw [hstate]
    refine ⟨h.without, hmissed.stored, ?_⟩
    intro k hk hd
    rw [Out.kept, if_neg hit] at hd
    cases hfind : (o.proc.find pPckt.xroute).1 with
    | error e =>
      rcases hmissed.failed e hfind with ⟨-, hnil, -, hi, hp⟩
      rw [hfind, Bool.and_true] at hd
      rw [hp] at hk
      rcases h.cached k hk hd with ⟨hik, hroutes, hne⟩
      have hxk : pPckt.xroute ≠ k := by
        intro hxk
        rw [hxk] at hnil
        exact hne hnil
      rw [hi, hmissed.same k hxk]
      exact ⟨hik, hroutes, hne⟩
    | ok pRoute =>
      rcases hmissed.found pRoute hfind with ⟨hpointed, hi, hp, hkind⟩
      rw [hp] at hk
      subst hk
      rcases hkind with ⟨hnone, -⟩ | ⟨hsome, hne⟩
      · cases hnone
      · cases hsome
        exact ⟨hi, hpointed, fun h0 => hne (hpointed.symm.trans h0)⟩

/-! ## Whole runs -/

/-- The block has what is configured, and `out` a copy of what it had. -/
structure Held (c : Config P) (ps : List P) (b : Block P) : Prop where
  base : ∀ x, b.base.routes x = c x
  out : ∀ o, b.out = some o → ∃ given, Copied c ps o given

theorem handed_over {given : MediaProcessor P} (hbase : ∀ x, given.routes x = c x) (o : Out P) :
    Copied c [] (o.setRouting given.vRouting) c := by
  refine ⟨without_nil c, fun x => .inl (hbase x), ?_⟩
  intro k hk hd
  have hkept : o.proc.pCachedRoute = some k := hk
  simp [Out.setRouting, hkept] at hd

theorem held_new : Held (fun _ => []) [] (Block.new : Block P) := by
  refine ⟨fun x => empty_routes TreeMap.isEmpty_emptyc x, ?_⟩
  intro o ho
  cases ho

theorem held_setRoute (h : Held c ps b) (iRoute : ℤ) (pProc : P) :
    Held (c.configured (.setRoute iRoute pProc)) [] (b.setRoute iRoute pProc) := by
  have hbase : ∀ x, (b.base.setRoute iRoute pProc).routes x =
      c.configured (.setRoute iRoute pProc) x := by
    intro x
    rw [setRoute_routes, h.base, h.base, Config.configured]
    by_cases hx : iRoute = x
    · rw [if_pos hx, hx, Function.update_self]
    · rw [if_neg hx, Function.update_of_ne (Ne.symm hx)]
  refine ⟨hbase, ?_⟩
  intro o ho
  rcases Option.map_eq_some_iff.mp ho with ⟨o', -, rfl⟩
  exact ⟨_, handed_over hbase o'⟩

theorem held_clearRoute (h : Held c ps b) (pProc : P) :
    Held (c.configured (.clearRoute pProc)) (pProc::ps) (b.clearRoute pProc) := by
  constructor
  · intro x
    show (b.base.clearRoute pProc).routes x = _
    rw [clearRoute_routes, h.base]
    rfl
  · intro o ho
    rcases h.out o ho with ⟨given, hcopied⟩
    exact ⟨given, without_cleared hcopied.without pProc, hcopied.stored, hcopied.cached⟩

theorem held_init (h : Held c ps b) (out : Option (MediaProcessor P)) :
    Held c [] (b.init out) := by
  refine ⟨h.base, ?_⟩
  intro o ho
  rcases Option.map_eq_some_iff.mp ho with ⟨o', -, rfl⟩
  exact ⟨c, handed_over h.base o'⟩

theorem held_stepped (h : Held c ps b) (a : Step P) :
    Held (configured c a) (gone ps a) (b.stepped a) := by
  cases a with
  | setRoute iRoute pProc => exact held_setRoute h iRoute pProc
  | clearRoute pProc => exact held_clearRoute h pProc
  | init out => exact held_init h out
  | emit pPckt =>
    refine ⟨h.base, ?_⟩
    intro o ho
    rcases Option.map_eq_some_iff.mp ho with ⟨o', ho', rfl⟩
    rcases h.out o' ho' with ⟨given, hcopied⟩
    exact ⟨given, emit_copied hcopied pPckt⟩

theorem routes_fresh (h : Held c ps b) (a : Step P) : Routes c b a ↔ FreshStep ps b a := by
  cases a with
  | setRoute iRoute pProc => exact Iff.rfl
  | clearRoute pProc => exact Iff.rfl
  | init out => exact Iff.rfl
  | emit pPckt =>
    apply forall_congr'
    intro o
    apply imp_congr_right
    intro ho
    rcases h.out o ho with ⟨given, hcopied⟩
    exact emit_fresh hcopied pPckt

theorem routesAll_fresh (steps : List (Step P)) (h : Held c ps b) :
    RoutesAll c b steps ↔ AllFresh ps b steps := by
  induction steps generalizing c ps b with
  | nil => exact Iff.rfl
  | cons a steps ih => exact and_congr (routes_fresh h a) (ih (held_stepped h a))

/-- A block routes as it is configured exactly in the runs in which every packet is fresh. -/
theorem block_routes_as_configured (steps : List (Step P)) :
    RoutesAll (fun _ => []) Block.new steps ↔ AllFresh [] Block.new steps :=
  routesAll_fresh steps held_new

/-- A processor set while the last route is in the cache, and one cleared. -/
theorem handover_not_seen :
    ¬ RoutesAll (fun _ => []) (Block.new : Block ℕ)
      [.init (some .new), .setRoute 0 7, .emit (onRoute 0), .setRoute 0 8, .emit (onRoute 0)] ∧
    ¬ RoutesAll (fun _ => []) (Block.new : Block ℕ)
      [.init (some .new), .setRoute 0 7, .clearRoute 7, .emit (onRoute 0)] := by
  constructor
  · rintro ⟨-, -, -, -, hlast, -⟩
    have hrouted := hlast _ rfl
    revert hrouted
    decide +kernel
  · rintro ⟨-, -, -, hlast, -⟩
    have hrouted := hlast _ rfl
    revert hrouted
    decide +kernel

end Sirannon.BlockRouting
