import DarkPool.BookCapacity
import DarkPool.OrderApi

namespace DarkPool

/-- An engine at work: its orders are filed properly and its book is not ahead of its log. -/
structure Engine where
  state : EngineState
  store : Store
  filed : state.book.WF
  behind : state.book.seq ≤ store.seq

/-- Every run of the system leaves such an engine. -/
def Engine.ofRun {env : Env} {moves : List Move} {σ : System env}
    (h : Transition.run System.step (System.initial env) moves = some σ) : Engine :=
  have hrec : System.Recorded σ :=
    Transition.run_preserves (fun _ _ _ hs hstep => (System.step_effect hs.toKept hstep).recorded hs)
      (System.recorded_initial env) h
  ⟨σ.world.state, σ.world.store, hrec.filed.book_wf hrec.books, hrec.logged.ok.book⟩

/-- Two lists of orders that differ only in the order of what was submitted at one time. -/
def SameButTies (os os' : List Order) : Prop := os.Perm os' ∧ os.map Order.submittedAt = os'.map Order.submittedAt

/-- Two responses a caller cannot tell apart. -/
def SameResponse (env : ApiEnv) : ApiResponse → ApiResponse → Prop
  | .orders infos, .orders infos' =>
    ∃ os os', infos = os.map (orderToProto env) ∧ infos' = os'.map (orderToProto env) ∧ SameButTies os os'
  | response, response' => response = response'

/-- The two calls ask for the same, and the store takes both or neither. -/
def SameCall (call call' : ApiCall) : Prop := call.request = call'.request ∧ call.ok = call'.ok

/-- What the caller owns and what all see is the same. -/
structure SameView (caller : Option Address) (e e' : Engine) : Prop where
  own : ∀ o, caller = some o.trader → (o ∈ e.state.book.iterAll ↔ o ∈ e'.state.book.iterAll)
  registry : ∀ pair, e.state.pairTokens.lookup pair = e'.state.pairTokens.lookup pair

/-- Other traders' orders are where they were, and the log has grown by cancellations of the caller's own. -/
structure OnlyOwn (caller : Option Address) (e e' : Engine) : Prop where
  others : ∀ o, caller ≠ some o.trader → (o ∈ e'.state.book.iterAll ↔ o ∈ e.state.book.iterAll)
  shrinks : ∀ o ∈ e'.state.book.iterAll, o ∈ e.state.book.iterAll
  registry : ∀ pair, e'.state.pairTokens.lookup pair = e.state.pairTokens.lookup pair
  log : ∃ es, e'.store.events = e.store.events ++ es ∧
    ∀ ev ∈ es, ∃ o ∈ e.state.book.iterAll, caller = some o.trader ∧ ∃ reason, ev.data = .orderCancelled o.id reason

section

variable {env : ApiEnv} {caller : Option Address} {e e' : Engine}

theorem Engine.mem_iterAll (e : Engine) {o : Order} : o ∈ e.state.book.iterAll ↔ e.state.book.findOrder o.id = some o :=
  OrderBook.mem_iterAll e.filed

theorem Api.visibleOrder_eq_some {id : Uuid} {o : Order} :
    visibleOrder caller e.state id = some o ↔ (o ∈ e.state.book.iterAll ∧ o.id = id) ∧ caller = some o.trader := by
  simp only [visibleOrder, Option.filter_eq_some_iff, decide_eq_true_eq, e.mem_iterAll]
  refine and_congr_left' ⟨fun h => ?_, fun ⟨h, hid⟩ => hid ▸ h⟩
  have hid := OrderBook.findOrder_id e.filed h
  exact ⟨hid.symm ▸ h, hid⟩

theorem SameView.visibleOrder (h : SameView caller e e') (id : Uuid) :
    Api.visibleOrder caller e.state id = Api.visibleOrder caller e'.state id := by
  apply Option.ext
  intro o
  rw [Api.visibleOrder_eq_some, Api.visibleOrder_eq_some]
  constructor
  · rintro ⟨⟨ho, hid⟩, hown⟩
    exact ⟨⟨(h.own o hown).mp ho, hid⟩, hown⟩
  · rintro ⟨⟨ho, hid⟩, hown⟩
    exact ⟨⟨(h.own o hown).mpr ho, hid⟩, hown⟩

theorem sameButTies_of_sorted {os os' : List Order} (hperm : os.Perm os')
    (hos : os.Pairwise (fun a b => a.submittedAt ≤ b.submittedAt))
    (hos' : os'.Pairwise (fun a b => a.submittedAt ≤ b.submittedAt)) : SameButTies os os' := by
  refine ⟨hperm, ?_⟩
  exact (hperm.map Order.submittedAt).eq_of_pairwise (fun a b _ _ => le_antisymm) (List.pairwise_map.mpr hos)
    (List.pairwise_map.mpr hos')

theorem ordersByTrader_sorted (state : EngineState) (trader : Address) :
    (ordersByTrader state trader).Pairwise (fun a b => a.submittedAt ≤ b.submittedAt) := by
  have htotal : Std.Total (fun a b : Order => a.submittedAt ≤ b.submittedAt) :=
    ⟨fun a b => le_total a.submittedAt b.submittedAt⟩
  have htrans : IsTrans Order (fun a b => a.submittedAt ≤ b.submittedAt) := ⟨fun _ _ _ => le_trans⟩
  exact List.pairwise_insertionSort _ _

/-- The caller's list is the same but for ties, whatever else is in the book. -/
theorem SameView.ordersByTrader {trader : Address} (h : SameView (some trader) e e') (test : Order → Bool) :
    SameButTies ((ordersByTrader e.state trader).filter test) ((ordersByTrader e'.state trader).filter test) := by
  have hnodup : ∀ e : Engine, (e.state.book.iterAll.filter (fun o => o.trader = trader)).Nodup :=
    fun e => ((OrderBook.iterAll_ids_nodup e.filed).of_map Order.id).filter _
  have hfilter : (e.state.book.iterAll.filter (fun o => o.trader = trader)).Perm
      (e'.state.book.iterAll.filter (fun o => o.trader = trader)) := by
    refine (List.perm_ext_iff_of_nodup (hnodup e) (hnodup e')).mpr (fun o => ?_)
    rw [List.mem_filter, List.mem_filter, decide_eq_true_eq]
    refine and_congr_left (fun htrader => h.own o (by rw [htrader]))
  have hperm : (DarkPool.ordersByTrader e.state trader).Perm (DarkPool.ordersByTrader e'.state trader) :=
    (List.perm_insertionSort _ _).trans (hfilter.trans (List.perm_insertionSort _ _).symm)
  exact sameButTies_of_sorted (hperm.filter test) ((ordersByTrader_sorted _ _).filter test)
    ((ordersByTrader_sorted _ _).filter test)

theorem SameView.pairFilter (h : SameView caller e e') (env : ApiEnv) (pair : String) :
    Api.pairFilter env e.state pair = Api.pairFilter env e'.state pair := by
  simp only [Api.pairFilter, validatePairKnown, h.registry]

/-- A cancellation that the store takes removes that order and logs that it did. -/
theorem Engine.cancelOrder_ok (e : Engine) {id : Uuid} {o : Order} (hfind : e.state.book.findOrder id = some o)
    (now clock : DateTime) (reason : Option String) :
    ∃ e₁ : Engine, cancelOrder e.state e.store now clock true id reason = .ok (e₁.state, e₁.store) ∧
      (∀ i, e₁.state.book.findOrder i = if i = id then none else e.state.book.findOrder i) ∧
      e₁.state.pairTokens = e.state.pairTokens ∧
      ∃ ev, e₁.store.events = e.store.events ++ [ev] ∧ ∃ text, ev.data = .orderCancelled id text := by
  let event := Event.unsequenced now (.orderCancelled id (reason.getD "user cancelled"))
  let stamped := assignSeqAndTimestamp clock e.store.seq event
  have hhas : e.state.book.hasOrder id = true := by rw [OrderBook.hasOrder_eq, hfind]; rfl
  have hlt : e.state.book.seq < stamped.seq := Nat.lt_succ_of_le e.behind
  have happly : e.state.book.apply stamped = (e.state.book.withSeq (max e.state.book.seq stamped.seq)).removeOrder id := by
    rw [OrderBook.apply, if_neg (by omega)]
    rfl
  have hwf := OrderBook.wf_withSeq e.filed (max e.state.book.seq stamped.seq)
  refine ⟨⟨e.state.withBook (e.state.book.apply stamped), ⟨e.store.events ++ [stamped], e.store.seq + 1⟩, ?_, ?_⟩,
    ?_, ?_, rfl, stamped, rfl, _, rfl⟩
  · show (e.state.book.apply stamped).WF
    rw [happly]
    exact OrderBook.wf_removeOrder hwf id
  · show (e.state.book.apply stamped).seq ≤ e.store.seq + 1
    rw [OrderBook.seq_apply hlt]
    exact le_refl _
  · rw [cancelOrder, if_pos hhas]
    rfl
  · intro i
    show (e.state.book.apply stamped).findOrder i = _
    rw [happly, OrderBook.findOrder_removeOrder hwf]
    rfl

theorem Engine.cancelOrder_fails (e : Engine) {id : Uuid} {o : Order} (hfind : e.state.book.findOrder id = some o)
    (now clock : DateTime) (reason : Option String) :
    cancelOrder e.state e.store now clock false id reason = .error .event := by
  have hhas : e.state.book.hasOrder id = true := by rw [OrderBook.hasOrder_eq, hfind]; rfl
  rw [cancelOrder, if_pos hhas]
  rfl

theorem OnlyOwn.refl (caller : Option Address) (e : Engine) : OnlyOwn caller e e where
  others _ _ := Iff.rfl
  shrinks _ h := h
  registry _ := rfl
  log := ⟨[], by simp, by simp⟩

theorem OnlyOwn.trans {e₁ e₂ : Engine} (h : OnlyOwn caller e e₁) (h' : OnlyOwn caller e₁ e₂) : OnlyOwn caller e e₂ where
  others o ho := (h'.others o ho).trans (h.others o ho)
  shrinks o ho := h.shrinks o (h'.shrinks o ho)
  registry pair := (h'.registry pair).trans (h.registry pair)
  log := by
    obtain ⟨es, hes, hown⟩ := h.log
    obtain ⟨es', hes', hown'⟩ := h'.log
    refine ⟨es ++ es', by rw [hes', hes, List.append_assoc], fun ev hev => ?_⟩
    rcases List.mem_append.mp hev with hev | hev
    · exact hown ev hev
    · obtain ⟨o, ho, hcaller, hdata⟩ := hown' ev hev
      exact ⟨o, h.shrinks o ho, hcaller, hdata⟩

/-- The engine without one of the caller's own orders. -/
theorem Engine.mem_removed {e₁ : Engine} {id : Uuid}
    (h : ∀ i, e₁.state.book.findOrder i = if i = id then none else e.state.book.findOrder i) {o : Order} :
    o ∈ e₁.state.book.iterAll ↔ o ∈ e.state.book.iterAll ∧ o.id ≠ id := by
  rw [e₁.mem_iterAll, e.mem_iterAll, h]
  split
  next heq => simp [heq]
  next hne => simp [hne]

theorem onlyOwn_removed {e₁ : Engine} {o : Order} (ho : o ∈ e.state.book.iterAll) (hown : caller = some o.trader)
    (hremoved : ∀ i, e₁.state.book.findOrder i = if i = o.id then none else e.state.book.findOrder i)
    (hregistry : e₁.state.pairTokens = e.state.pairTokens) {ev : Event}
    (hlog : e₁.store.events = e.store.events ++ [ev]) (hdata : ∃ text, ev.data = .orderCancelled o.id text) :
    OnlyOwn caller e e₁ where
  others o' ho' := by
    rw [Engine.mem_removed hremoved]
    refine and_iff_left_of_imp (fun hin hid => ho' ?_)
    have hsame : o' = o := by
      have hfind := e.mem_iterAll.mp hin
      rw [hid, e.mem_iterAll.mp ho] at hfind
      exact (Option.some.inj hfind).symm
    rw [hsame, hown]
  shrinks o' ho' := ((Engine.mem_removed hremoved).mp ho').1
  registry pair := by rw [hregistry]
  log := ⟨[ev], hlog, fun ev' hev' => ⟨o, ho, hown, List.mem_singleton.mp hev' ▸ hdata⟩⟩

theorem SameView.removed {e₁ e₁' : Engine} (h : SameView caller e e') {id : Uuid}
    (hremoved : ∀ i, e₁.state.book.findOrder i = if i = id then none else e.state.book.findOrder i)
    (hremoved' : ∀ i, e₁'.state.book.findOrder i = if i = id then none else e'.state.book.findOrder i)
    (hregistry : e₁.state.pairTokens = e.state.pairTokens) (hregistry' : e₁'.state.pairTokens = e'.state.pairTokens) :
    SameView caller e₁ e₁' where
  own o hown := by
    rw [Engine.mem_removed hremoved, Engine.mem_removed hremoved', h.own o hown]
  registry pair := by rw [hregistry, hregistry', h.registry]

theorem SameView.getOrder (h : SameView caller e e') (orderId : String) :
    Api.getOrder env caller e.state orderId = Api.getOrder env caller e'.state orderId := by
  simp only [Api.getOrder, h.visibleOrder]

theorem SameView.listOrders (h : SameView caller e e') (pair : String) :
    SameResponse env (Api.respond .orders (Api.listOrders env caller e.state pair))
      (Api.respond .orders (Api.listOrders env caller e'.state pair)) := by
  cases caller with
  | none => exact ⟨[], [], rfl, rfl, List.Perm.refl _, rfl⟩
  | some trader =>
    simp only [Api.listOrders, h.pairFilter env]
    cases Api.pairFilter env e'.state pair with
    | error status => rfl
    | ok pairFilter => exact ⟨_, _, rfl, rfl, h.ordersByTrader _⟩

section Cancel

variable {orderId reason : String} {id : Uuid} (hparse : parseOrderId env orderId = .ok id)

include hparse

theorem Api.cancelOrder_hidden {state : EngineState} (hvisible : visibleOrder caller state id = none) (store : Store)
    (now clock : DateTime) (ok : Bool) :
    cancelOrder env caller state store now clock ok orderId reason = .error (orderNotFound orderId) := by
  simp only [cancelOrder, hparse, bind, Except.bind, hvisible]

theorem Api.cancelOrder_visible {state : EngineState} {o : Order} (hvisible : visibleOrder caller state id = some o)
    (store : Store) (now clock : DateTime) (ok : Bool) :
    cancelOrder env caller state store now clock ok orderId reason = mapErr (engineErrorToStatus env)
      (DarkPool.cancelOrder state store now clock ok id (if reason = "" then none else some reason)) := by
  simp only [cancelOrder, hparse, bind, Except.bind, hvisible]

end Cancel

/-- One request: both runs answer the same, and stay as alike as they were. -/
theorem SameView.serve (h : SameView caller e e') (env : ApiEnv) {call call' : ApiCall} (hcall : SameCall call call') :
    SameResponse env (Api.serve env caller (e.state, e.store) call).1 (Api.serve env caller (e'.state, e'.store) call').1 ∧
      ∃ e₁ e₁' : Engine, (Api.serve env caller (e.state, e.store) call).2 = (e₁.state, e₁.store) ∧
        (Api.serve env caller (e'.state, e'.store) call').2 = (e₁'.state, e₁'.store) ∧ SameView caller e₁ e₁' ∧
        OnlyOwn caller e e₁ ∧ OnlyOwn caller e' e₁' := by
  obtain ⟨request, now, clock, ok⟩ := call
  obtain ⟨request', now', clock', ok'⟩ := call'
  obtain ⟨rfl, rfl⟩ : request = request' ∧ ok = ok' := hcall
  cases request with
  | getOrder orderId =>
    refine ⟨?_, e, e', rfl, rfl, h, OnlyOwn.refl caller e, OnlyOwn.refl caller e'⟩
    simp only [Api.serve, h.getOrder]
    cases Api.getOrder env caller e'.state orderId <;> rfl
  | listOrders pair => exact ⟨h.listOrders pair, e, e', rfl, rfl, h, OnlyOwn.refl caller e, OnlyOwn.refl caller e'⟩
  | cancelOrder orderId reason =>
    cases hparse : parseOrderId env orderId with
    | error status =>
      simp only [Api.serve, Api.cancelOrder, hparse]
      exact ⟨rfl, e, e', rfl, rfl, h, OnlyOwn.refl caller e, OnlyOwn.refl caller e'⟩
    | ok id =>
      cases hvisible : Api.visibleOrder caller e.state id with
      | none =>
        have hvisible' := (h.visibleOrder id).symm.trans hvisible
        simp only [Api.serve, Api.cancelOrder_hidden hparse hvisible, Api.cancelOrder_hidden hparse hvisible']
        exact ⟨rfl, e, e', rfl, rfl, h, OnlyOwn.refl caller e, OnlyOwn.refl caller e'⟩
      | some o =>
        have hvisible' := (h.visibleOrder id).symm.trans hvisible
        simp only [Api.serve, Api.cancelOrder_visible hparse hvisible, Api.cancelOrder_visible hparse hvisible']
        obtain ⟨⟨ho, rfl⟩, hown⟩ := Api.visibleOrder_eq_some.mp hvisible
        obtain ⟨⟨ho', -⟩, -⟩ := Api.visibleOrder_eq_some.mp hvisible'
        have hfind := e.mem_iterAll.mp ho
        have hfind' := e'.mem_iterAll.mp ho'
        cases ok with
        | false =>
          rw [e.cancelOrder_fails hfind, e'.cancelOrder_fails hfind']
          exact ⟨rfl, e, e', rfl, rfl, h, OnlyOwn.refl caller e, OnlyOwn.refl caller e'⟩
        | true =>
          obtain ⟨e₁, hok, hremoved, hregistry, ev, hlog, hdata⟩ :=
            e.cancelOrder_ok hfind now clock (if reason = "" then none else some reason)
          obtain ⟨e₁', hok', hremoved', hregistry', ev', hlog', hdata'⟩ :=
            e'.cancelOrder_ok hfind' now' clock' (if reason = "" then none else some reason)
          rw [hok, hok']
          exact ⟨rfl, e₁, e₁', rfl, rfl, h.removed hremoved hremoved' hregistry hregistry',
            onlyOwn_removed ho hown hremoved hregistry hlog hdata,
            onlyOwn_removed ho' hown hremoved' hregistry' hlog' hdata'⟩

end

/-- Whoever calls learns of its own orders only and touches no others: two engines that agree on the caller's
resting orders and on the registry answer every sequence of requests alike, and in each of them the orders of all
other traders stay and the log grows by cancellations of the caller's orders. -/
theorem serveAll_isolates (env : ApiEnv) (caller : Option Address) (e e' : Engine) (hview : SameView caller e e')
    (calls calls' : List ApiCall) (hcalls : List.Forall₂ SameCall calls calls') :
    List.Forall₂ (SameResponse env) (Api.serveAll env caller (e.state, e.store) calls).1
        (Api.serveAll env caller (e'.state, e'.store) calls').1 ∧
      ∃ e₁ e₁' : Engine, (Api.serveAll env caller (e.state, e.store) calls).2 = (e₁.state, e₁.store) ∧
        (Api.serveAll env caller (e'.state, e'.store) calls').2 = (e₁'.state, e₁'.store) ∧
        OnlyOwn caller e e₁ ∧ OnlyOwn caller e' e₁' := by
  induction hcalls generalizing e e' with
  | nil => exact ⟨.nil, e, e', rfl, rfl, OnlyOwn.refl caller e, OnlyOwn.refl caller e'⟩
  | @cons call call' calls calls' hcall hrest ih =>
    obtain ⟨hresponse, e₁, e₁', hserved, hserved', hview₁, hown, hown'⟩ := hview.serve env hcall
    obtain ⟨hresponses, e₂, e₂', hall, hall', hown₂, hown₂'⟩ := ih e₁ e₁' hview₁
    simp only [Api.serveAll, hserved, hserved']
    exact ⟨.cons hresponse hresponses, e₂, e₂', hall, hall', hown.trans hown₂, hown'.trans hown₂'⟩

namespace Scenario

def mine : Order := makeOrder 11 1 .buy 5 2 1

def theirs : Order := makeOrder 12 2 .sell 7 3 2

/-- An engine that holds the caller's order only. -/
def quietEngine : Engine where
  state := EngineState.new.withBook (OrderBook.empty.insertOrder mine)
  store := Store.empty
  filed := OrderBook.wf_insertOrder OrderBook.wf_empty rfl
  behind := le_refl 0

/-- The same with an order of another trader. -/
def busyEngine : Engine where
  state := EngineState.new.withBook ((OrderBook.empty.insertOrder mine).insertOrder theirs)
  store := Store.empty
  filed := OrderBook.wf_insertOrder (OrderBook.wf_insertOrder OrderBook.wf_empty rfl) rfl
  behind := le_refl 0

def apiEnv : ApiEnv where
  parseUuid s := .ok (if s = "mine" then 11 else 12)
  showUuid _ := ""
  showDecimal _ := ""
  showError _ := ""

/-- The caller asks for both orders and cancels both. -/
def probing : List ApiCall :=
  [⟨.getOrder "theirs", 1, 1, true⟩, ⟨.cancelOrder "theirs" "", 2, 2, true⟩, ⟨.listOrders "", 3, 3, true⟩,
    ⟨.cancelOrder "mine" "", 4, 4, true⟩]

end Scenario

open Scenario in
theorem serveAll_isolates_probing :
    List.Forall₂ (SameResponse apiEnv) (Api.serveAll apiEnv (some 1) (busyEngine.state, busyEngine.store) probing).1
      (Api.serveAll apiEnv (some 1) (quietEngine.state, quietEngine.store) probing).1 := by
  have hbusy : busyEngine.state.book.iterAll = [mine, theirs] := rfl
  have hquiet : quietEngine.state.book.iterAll = [mine] := rfl
  refine (serveAll_isolates apiEnv (some 1) busyEngine quietEngine ⟨fun o hown => ?_, fun _ => rfl⟩ probing probing
    (List.forall₂_same.mpr (fun _ _ => ⟨rfl, rfl⟩))).1
  have hne : o ≠ theirs := by
    rintro rfl
    exact absurd hown (by decide)
  rw [hbusy, hquiet]
  simp [hne]

end DarkPool
