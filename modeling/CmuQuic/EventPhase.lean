import CmuQuic.ReadyList

/-! One event phase of the server: the events reported by `epoll_wait` are handed
to `HandleEvent`, and then every entry of the ready list has its turn. -/
namespace CmuQuic
open IntrusiveList EpollServer

/-- What each `OnEvent` does, read off everything that happened before: the
operations it performs, in order, and the `out_ready_mask` it leaves behind. -/
abbrev Callbacks := List Happened → List Op × Mask

def EpollServer.Op.withdraws (fd : Fd) : Op → Bool
  | .registerFD x _ _ => x = fd
  | .unregisterFD x => x = fd
  | .setFDNotReady x => x = fd
  | _ => false

namespace Happened

def withdraws (fd : Fd) : Happened → Bool
  | .did o => o.withdraws fd
  | _ => false

def calls (fd : Fd) : Happened → Bool
  | .called call => call.fd = fd
  | _ => false

end Happened

def EpollServer.registered (s : EpollServer) (fd : Fd) : Bool :=
  (s.cbMap.lookup fd).any fun n => n.cb.isSome

namespace EpollConfig

def perform (c : EpollConfig) : List Op → Except Abort EpollConfig
  | [] => .ok c
  | o :: os => do
    let c ← machine.step c (.op o)
    c.perform os

/-- The loop of `CallReadyListCallbacks`. The fuel bounds its iterations; a loop
that runs out of it stays at its head. -/
def serve (callbacks : Callbacks) : ℕ → EpollConfig → Except Abort EpollConfig
  | 0, c => .ok c
  | fuel+1, c => do
    let c ← machine.step c .nextReady
    if c.control.isOnEvent then do
      let turn := callbacks c.trace
      let c ← c.perform turn.1
      let c ← machine.step c (.onEventReturns turn.2)
      serve callbacks fuel c
    else .ok c

def callReadyListCallbacks (callbacks : Callbacks) (fuel : ℕ) (c : EpollConfig) :
    Except Abort EpollConfig := do
  let c ← machine.step c .callReadyListCallbacks
  serve callbacks fuel c

def handleEvents (batch : List (Fd × Mask)) (c : EpollConfig) : Except Abort EpollConfig :=
  c.perform (batch.map fun e => .handleEvent e.1 e.2)

/-- The part of `WaitForEventsAndCallHandleEvents` after `epoll_wait` returned. -/
def waitForEventsAndCallHandleEvents (callbacks : Callbacks) (fuel : ℕ)
    (batch : List (Fd × Mask)) (c : EpollConfig) : Except Abort EpollConfig := do
  let c ← c.handleEvents batch
  if c.server.links.lhFirst .readyList = none then .ok c
  else c.callReadyListCallbacks callbacks fuel

/-- The steps that make a registered descriptor ready: an operation that says so,
or an `OnEvent` that asks to be called again. -/
def makesReady (c : EpollConfig) (fd : Fd) : Event → Prop
  | .op (.handleEvent x _) => x = fd ∧ c.server.registered fd = true
  | .op (.setFDReady x _) => x = fd ∧ c.server.registered fd = true
  | .onEventReturns mask =>
    mask ≠ 0 ∧ c.server.registered fd = true ∧ ∃ p, c.control = .onEvent p ∧ p.fd = fd
  | _ => False

/-- What a round owes to the entries that are on the ready list when it starts in
`c`, given its steps, the configuration it ends in and what happened meanwhile. -/
structure Delivered (batch : List (Fd × Mask)) (c : EpollConfig) (ready : List NodePtr)
    (es : List Event) (d : EpollConfig) (τ : List Happened) : Prop where
  once : ∀ p ∈ ready, τ.countP (Happened.calls p.fd) = 1 ∨
    τ.countP (Happened.calls p.fd) = 0 ∧ ∃ h ∈ τ, h.withdraws p.fd = true
  withdrawn : ∀ fd, τ.Pairwise fun h h' => h.withdraws fd = true → h'.calls fd = false
  listed : ∀ call, .called call ∈ τ → ∃ p ∈ ready, p.fd = call.fd
  valid : ∀ es₁ es₂ c₁ c₂ p, es = es₁ ++ .nextReady :: es₂ → machine.Run c es₁ c₁ →
    machine.step c₁ .nextReady = .ok c₂ → c₂.control = .onEvent p →
    ∃ n cb, c₁.server.deref p = some n ∧ n.cb = some cb ∧
      c₂.trace = c₁.trace ++ [.called ⟨cb,p.fd,n.eventsAsserted ||| n.eventsToFake⟩]
  reported : ∀ fd mask, (fd,mask) ∈ batch → (∀ m, .did (.handleEvent fd m) ∉ τ) →
    ∀ call, .called call ∈ τ → call.fd = fd → call.inEvents &&& mask = mask
  kept : ∀ es₁ e es₂ c₁ c₂ fd, es = es₁ ++ e :: es₂ → machine.Run c es₁ c₁ →
    machine.step c₁ e = .ok c₂ → c₁.makesReady fd e →
    (∃ later, d.ReadyLists later [] ∧ ∃ p ∈ later, p.fd = fd) ∨
    ∃ σ, d.trace = c₂.trace ++ σ ∧ ∃ h ∈ σ, h.calls fd = true ∨ h.withdraws fd = true

end EpollConfig

namespace Registry

variable {r : Registry} {frame : Option NodePtr} {p q : NodePtr} {h k : ListHead}

def asserted (r : Registry) (fd : Fd) : Option Mask :=
  (r.cbMap.lookup fd).map fun n => n.eventsAsserted

theorem WF.node (hr : r.WF frame) (hp : p ∈ r.lists h) :
    ∃ n, r.cbMap.lookup p.fd = some n ∧ p = ⟨p.fd,n.serial⟩ ∧ n.cb ≠ none := by
  obtain ⟨n,hn,hc⟩ := hr.member hp
  obtain ⟨h₁,h₂⟩ := deref_eq_some.mp hn
  exact ⟨n,h₁,by rw [h₂],hc⟩

theorem WF.eq_of_fd (hr : r.WF frame) (hp : p ∈ r.lists h) (hq : q ∈ r.lists k)
    (hfd : p.fd = q.fd) : p = q := by
  obtain ⟨n,hn,he,_⟩ := hr.node hp
  obtain ⟨m,hm,he',_⟩ := hr.node hq
  rw [hfd,hm] at hn
  cases hn
  rw [he,he',hfd]

theorem mem_link_of_mem (hp : p ∈ r.lists h) : p ∈ (r.link q).lists h := by
  unfold link
  split_ifs
  · exact hp
  · cases h <;> simp [hp]

theorem mem_link_self (r : Registry) (p : NodePtr) : ∃ h, p ∈ (r.link p).lists h :=
  mem_link.mpr (Or.inl rfl)

theorem WF.mem_perform (hr : r.WF frame) (o : Op) (hp : p ∈ r.lists h)
    (ho : o.withdraws p.fd = false) : p ∈ (r.perform o).lists h := by
  have hmodify : ∀ fd a b, p ∈ (r.modify fd a b).lists h := by
    intro fd a b
    unfold modify onRegistered
    split
    · exact hp
    split_ifs
    · exact hp
    · rwa [lists_edit]
  have hraise : ∀ fd f, p ∈ (r.raise fd f).lists h := by
    intro fd f
    unfold Registry.raise onRegistered
    split
    · exact hp
    split_ifs
    · exact hp
    · exact mem_link_of_mem (by rwa [lists_edit])
  have hunlink : ∀ fd s, fd ≠ p.fd → p ∈ (r.unlink ⟨fd,s⟩).lists h := fun fd s hfd =>
    (mem_unlink hr.separate).mpr ⟨fun he => hfd (by rw [he]),hp⟩
  cases o with
  | registerFD fd cb mask =>
    have hfd : fd ≠ p.fd := by simpa [Op.withdraws] using ho
    simp only [Registry.perform,register]
    split
    · exact hp
    · rw [lists_edit]
      exact hunlink _ _ hfd
  | unregisterFD fd =>
    have hfd : fd ≠ p.fd := by simpa [Op.withdraws] using ho
    simp only [Registry.perform,unregister,onRegistered]
    split
    · exact hp
    split_ifs
    · exact hp
    · rw [lists_edit]
      exact hunlink _ _ hfd
    · exact hunlink _ _ hfd
  | setFDNotReady fd =>
    have hfd : fd ≠ p.fd := by simpa [Op.withdraws] using ho
    simp only [Registry.perform,Registry.notReady]
    split
    · exact hp
    · exact hunlink _ _ hfd
  | modifyCallback fd mask => exact hmodify _ _ _
  | stopRead fd => exact hmodify _ _ _
  | startRead fd => exact hmodify _ _ _
  | stopWrite fd => exact hmodify _ _ _
  | startWrite fd => exact hmodify _ _ _
  | handleEvent fd mask => exact hraise _ _
  | setFDReady fd mask => exact hraise _ _

theorem WF.not_mem_of_withdraws (hr : r.WF frame) {o : Op} (ho : o.withdraws p.fd = true) :
    p ∉ (r.perform o).lists h := by
  intro hp
  have hgone : ∀ n, r.cbMap.lookup p.fd = some n → p ∉ (r.unlink ⟨p.fd,n.serial⟩).lists h := by
    intro n hn hp
    obtain ⟨hne,hp⟩ := (mem_unlink hr.separate).mp hp
    obtain ⟨m,hm,he,_⟩ := hr.node hp
    rw [hn] at hm
    cases hm
    exact hne he
  cases o with
  | registerFD fd cb mask =>
    have hfd : fd = p.fd := by simpa [Op.withdraws] using ho
    subst hfd
    simp only [Registry.perform,register] at hp
    split at hp
    · rename_i hn
      obtain ⟨m,hm,_⟩ := hr.node (h:=h) hp
      simp [hn] at hm
    · rename_i n hn
      rw [lists_edit] at hp
      exact hgone n hn hp
  | unregisterFD fd =>
    have hfd : fd = p.fd := by simpa [Op.withdraws] using ho
    subst hfd
    simp only [Registry.perform,unregister,onRegistered] at hp
    split at hp
    · rename_i hn
      obtain ⟨m,hm,_⟩ := hr.node hp
      simp [hn] at hm
    rename_i n hn
    split_ifs at hp with hc
    · obtain ⟨m,hm,_,hmc⟩ := hr.node hp
      rw [hn] at hm
      cases hm
      exact hmc hc
    · rw [lists_edit] at hp
      exact hgone n hn hp
    · exact hgone n hn hp
  | setFDNotReady fd =>
    have hfd : fd = p.fd := by simpa [Op.withdraws] using ho
    subst hfd
    simp only [Registry.perform,Registry.notReady] at hp
    split at hp
    · rename_i hn
      obtain ⟨m,hm,_⟩ := hr.node hp
      simp [hn] at hm
    · rename_i n hn
      exact hgone n hn hp
  | modifyCallback fd mask => simp [Op.withdraws] at ho
  | stopRead fd => simp [Op.withdraws] at ho
  | startRead fd => simp [Op.withdraws] at ho
  | stopWrite fd => simp [Op.withdraws] at ho
  | startWrite fd => simp [Op.withdraws] at ho
  | handleEvent fd mask => simp [Op.withdraws] at ho
  | setFDReady fd mask => simp [Op.withdraws] at ho

theorem asserted_edit {f : CBAndEventMask → CBAndEventMask} {fd x : Fd}
    (hf : x = fd → ∀ n, (f n).eventsAsserted = n.eventsAsserted) :
    (r.edit fd f).asserted x = r.asserted x := by
  unfold asserted
  rw [lookup_edit]
  split_ifs with hx
  · subst hx
    cases r.cbMap.lookup x <;> simp [hf rfl]
  · rfl

theorem asserted_link (p : NodePtr) (x : Fd) : (r.link p).asserted x = r.asserted x := by
  rw [asserted,cbMap_link,asserted]

theorem asserted_drop {fd x : Fd} (hx : x ≠ fd) : (r.drop fd).asserted x = r.asserted x := by
  rw [asserted,drop,lookup_erase_ite,if_neg hx,asserted]

theorem asserted_raise {f : CBAndEventMask → CBAndEventMask} {fd x : Fd}
    (hf : x = fd → ∀ n, (f n).eventsAsserted = n.eventsAsserted) :
    (r.raise fd f).asserted x = r.asserted x := by
  unfold raise onRegistered
  split
  · rfl
  split_ifs
  · rfl
  · rw [asserted_link,asserted_edit hf]

theorem asserted_perform {o : Op} {x : Fd} (hw : o.withdraws x = false)
    (ho : ∀ m, o ≠ .handleEvent x m) : (r.perform o).asserted x = r.asserted x := by
  have hmodify : ∀ fd a b, (r.modify fd a b).asserted x = r.asserted x := by
    intro fd a b
    unfold modify onRegistered
    split
    · rfl
    split_ifs
    · rfl
    · exact asserted_edit fun _ _ => rfl
  cases o with
  | registerFD fd cb mask =>
    have hfd : x ≠ fd := fun he => by simp [Op.withdraws,he] at hw
    simp only [Registry.perform,register]
    split
    · rw [asserted,Registry.insertNode,lookup_insert_ite,if_neg hfd,asserted]
    · exact asserted_edit (r:=r.unlink _) fun _ _ => rfl
  | unregisterFD fd =>
    have hfd : x ≠ fd := fun he => by simp [Op.withdraws,he] at hw
    simp only [Registry.perform,unregister,onRegistered]
    split
    · rfl
    split_ifs
    · rfl
    · exact asserted_edit (r:=r.unlink _) fun _ _ => rfl
    · exact asserted_drop (r:=r.unlink _) hfd
  | setFDNotReady fd =>
    simp only [Registry.perform,Registry.notReady]
    split <;> rfl
  | modifyCallback fd mask => exact hmodify _ _ _
  | stopRead fd => exact hmodify _ _ _
  | startRead fd => exact hmodify _ _ _
  | stopWrite fd => exact hmodify _ _ _
  | startWrite fd => exact hmodify _ _ _
  | handleEvent fd mask =>
    exact asserted_raise fun he => absurd (by rw [he]) (ho mask)
  | setFDReady fd mask => exact asserted_raise fun _ _ => rfl

theorem tmpList_finishReady (r : Registry) (p : NodePtr) (mask : Mask) :
    (r.finishReady p mask).lists .tmpList = r.lists .tmpList := by
  unfold finishReady
  dsimp only
  split
  · exact congrFun (lists_edit _ _ _) _
  split_ifs <;> simp

theorem asserted_finishReady (mask : Mask) {x : Fd} {m : CBAndEventMask}
    (hx : (r.finishReady p mask).cbMap.lookup x = some m) :
    (r.finishReady p mask).asserted x = r.asserted x := by
  have h₁ : (r.edit p.fd fun n => { n with inUse := false }).asserted x = r.asserted x :=
    asserted_edit fun _ _ => rfl
  unfold finishReady at hx ⊢
  dsimp only at hx ⊢
  cases hn : (r.edit p.fd fun n => { n with inUse := false }).cbMap.lookup p.fd with
  | none => exact h₁
  | some n =>
    simp only [hn] at hx ⊢
    split_ifs at hx ⊢ with hc hz
    · have hne : x ≠ p.fd := by
        rintro rfl
        simp [drop] at hx
      rw [asserted_drop hne,h₁]
    · exact h₁
    · rw [asserted_link,← h₁]
      exact asserted_edit fun _ _ => rfl

/-- The state of a round: `ready` is what the round started from and `τ` is what
happened in it so far. -/
structure Round (ready : List NodePtr) (batch : List (Fd × Mask)) (τ : List Happened)
    (r : Registry) : Prop where
  pending : ∀ p ∈ r.lists .tmpList,
    p ∈ ready ∧ ∀ h ∈ τ, h.calls p.fd = false ∧ h.withdraws p.fd = false
  fate : ∀ p ∈ ready, p ∈ r.lists .tmpList ∨ τ.countP (Happened.calls p.fd) = 1 ∨
    τ.countP (Happened.calls p.fd) = 0 ∧ ∃ h ∈ τ, h.withdraws p.fd = true
  final : ∀ fd, τ.Pairwise fun h h' => h.withdraws fd = true → h'.calls fd = false
  listed : ∀ call, .called call ∈ τ → ∃ p ∈ ready, p.fd = call.fd
  reported : ∀ fd mask, (fd,mask) ∈ batch → (∀ m, .did (.handleEvent fd m) ∉ τ) →
    (∀ p ∈ r.lists .tmpList, p.fd = fd → r.asserted fd = some mask) ∧
    ∀ call, .called call ∈ τ → call.fd = fd → call.inEvents &&& mask = mask

namespace Round

variable {ready : List NodePtr} {batch : List (Fd × Mask)} {τ : List Happened}

theorem quiet (hr : Round ready batch τ r) {r' : Registry} {x : Happened}
    (hx : ∀ fd, x.calls fd = false)
    (hsub : ∀ p ∈ r'.lists .tmpList, p ∈ r.lists .tmpList ∧ x.withdraws p.fd = false)
    (hsup : ∀ p ∈ r.lists .tmpList, p ∈ r'.lists .tmpList ∨ x.withdraws p.fd = true)
    (hass : ∀ p ∈ r'.lists .tmpList, (∀ m, x ≠ .did (.handleEvent p.fd m)) →
      r'.asserted p.fd = r.asserted p.fd) : Round ready batch (τ ++ [x]) r' where
  pending p hp := by
    obtain ⟨hp,hw⟩ := hsub p hp
    obtain ⟨hr₁,hr₂⟩ := hr.pending p hp
    refine ⟨hr₁,fun h hh => ?_⟩
    rcases List.mem_append.mp hh with hh | hh
    · exact hr₂ h hh
    · rw [List.mem_singleton.mp hh]
      exact ⟨hx _,hw⟩
  fate p hp := by
    have hcount : (τ ++ [x]).countP (Happened.calls p.fd) = τ.countP (Happened.calls p.fd) := by
      simp [List.countP_append,hx]
    rw [hcount]
    rcases hr.fate p hp with h₁ | h₁ | ⟨h₁,h,hh,hw⟩
    · rcases hsup p h₁ with h₂ | h₂
      · exact Or.inl h₂
      · refine Or.inr (Or.inr ⟨?_,x,by simp,h₂⟩)
        exact List.countP_eq_zero.mpr fun h hh => by simp [((hr.pending p h₁).2 h hh).1]
    · exact Or.inr (Or.inl h₁)
    · exact Or.inr (Or.inr ⟨h₁,h,by simp [hh],hw⟩)
  final fd := List.pairwise_append.mpr ⟨hr.final fd,by simp,fun a _ b hb _ => by
    rw [List.mem_singleton.mp hb]; exact hx fd⟩
  listed call hcall := by
    rcases List.mem_append.mp hcall with h | h
    · exact hr.listed call h
    · have h₁ := hx call.fd
      simp [← List.mem_singleton.mp h,Happened.calls] at h₁
  reported fd mask hm hτ := by
    obtain ⟨h₁,h₂⟩ := hr.reported fd mask hm (fun m h => hτ m (by simp [h]))
    refine ⟨fun p hp hfd => ?_,fun call hcall => ?_⟩
    · rw [← hfd,hass p hp (fun m he => hτ m (by simp [he,hfd])),hfd]
      exact h₁ p (hsub p hp).1 hfd
    · rcases List.mem_append.mp hcall with h | h
      · exact h₂ call h
      · have h₁ := hx call.fd
        simp [← List.mem_singleton.mp h,Happened.calls] at h₁

theorem op (hr : Round ready batch τ r) (hwf : r.WF frame) (o : Op) :
    Round ready batch (τ ++ [Happened.did o]) (r.perform o) := by
  have hsub := EpollConfig.perform_tmpList hwf o
  refine hr.quiet (fun _ => rfl) ?_ ?_ ?_
  · intro p hp
    refine ⟨hsub.subset hp,?_⟩
    by_contra hw
    exact hwf.not_mem_of_withdraws (by simpa [Happened.withdraws] using hw) hp
  · intro p hp
    by_cases hw : o.withdraws p.fd = true
    · exact Or.inr hw
    · exact Or.inl (hwf.mem_perform o hp (by simpa using hw))
  · intro p hp ho
    refine asserted_perform ?_ fun m he => ho m (by rw [he])
    by_contra hw
    exact hwf.not_mem_of_withdraws (by simpa using hw) hp

theorem called (hr : Round ready batch τ r) (hwf : r.WF none) {rest : List NodePtr}
    (hp : r.lists .tmpList = p :: rest) {n : CBAndEventMask} (hn : r.deref p = some n) (cb : CB) :
    Round ready batch (τ ++ [Happened.called ⟨cb,p.fd,n.eventsAsserted ||| n.eventsToFake⟩])
      (r.takeReady p) := by
  have hmem : p ∈ r.lists .tmpList := by simp [hp]
  obtain ⟨hready,hquiet⟩ := hr.pending p hmem
  have htmp : ∀ q, q ∈ (r.takeReady p).lists .tmpList ↔ q ≠ p ∧ q ∈ r.lists .tmpList := by
    intro q
    rw [takeReady,lists_edit]
    exact mem_unlink hwf.separate
  have hother : ∀ q, q ∈ r.lists .tmpList → q ≠ p → p.fd ≠ q.fd := fun q hq hne he =>
    hne (hwf.eq_of_fd hq hmem he.symm)
  have hzero : τ.countP (Happened.calls p.fd) = 0 :=
    List.countP_eq_zero.mpr fun h hh => by simp [(hquiet h hh).1]
  constructor
  · intro q hq
    obtain ⟨hne,hq⟩ := (htmp q).mp hq
    obtain ⟨h₁,h₂⟩ := hr.pending q hq
    refine ⟨h₁,fun h hh => ?_⟩
    rcases List.mem_append.mp hh with hh | hh
    · exact h₂ h hh
    · rw [List.mem_singleton.mp hh]
      exact ⟨by simpa [Happened.calls] using hother q hq hne,rfl⟩
  · intro q hq
    by_cases hfd : p.fd = q.fd
    · right; left
      rw [List.countP_append,← hfd,hzero]
      simp [Happened.calls]
    · rw [List.countP_append]
      have h₀ : [Happened.called ⟨cb,p.fd,n.eventsAsserted ||| n.eventsToFake⟩].countP
          (Happened.calls q.fd) = 0 := by simp [Happened.calls,hfd]
      rw [h₀,Nat.add_zero]
      rcases hr.fate q hq with h₁ | h₁ | ⟨h₁,h,hh,hw⟩
      · exact Or.inl ((htmp q).mpr ⟨fun he => hfd (by rw [he]),h₁⟩)
      · exact Or.inr (Or.inl h₁)
      · exact Or.inr (Or.inr ⟨h₁,h,by simp [hh],hw⟩)
  · intro fd
    refine List.pairwise_append.mpr ⟨hr.final fd,by simp,fun a ha b hb hw => ?_⟩
    rw [List.mem_singleton.mp hb]
    -- a withdrawn descriptor is not pending any more, so it is not the one called now
    simp only [Happened.calls,decide_eq_false_iff_not]
    rintro rfl
    simp [(hquiet a ha).2] at hw
  · intro call hcall
    rcases List.mem_append.mp hcall with h | h
    · exact hr.listed call h
    · cases List.mem_singleton.mp h
      exact ⟨p,hready,rfl⟩
  · intro fd mask hm hτ
    obtain ⟨h₁,h₂⟩ := hr.reported fd mask hm (fun m h => hτ m (by simp [h]))
    refine ⟨fun q hq hfd => ?_,fun call hcall hfd => ?_⟩
    · obtain ⟨hne,hq⟩ := (htmp q).mp hq
      rw [← h₁ q hq hfd]
      exact asserted_edit (r:=r.unlink p) fun he => absurd (he.symm.trans hfd.symm) (hother q hq hne)
    · rcases List.mem_append.mp hcall with h | h
      · exact h₂ call h hfd
      · cases List.mem_singleton.mp h
        have ha := h₁ p hmem hfd
        rw [← hfd,asserted,(deref_eq_some.mp hn).1] at ha
        cases Option.some.inj ha
        ext i
        simp only [BitVec.getElem_and,BitVec.getElem_or]
        cases n.eventsAsserted[i] <;> simp

theorem returned (hr : Round ready batch τ r) (hwf : r.WF (some p)) (mask : Mask) :
    Round ready batch (τ ++ [Happened.returned p.fd mask]) (r.finishReady p mask) := by
  have htmp := tmpList_finishReady r p mask
  refine hr.quiet (fun _ => rfl) ?_ ?_ ?_
  · intro q hq
    exact ⟨htmp ▸ hq,rfl⟩
  · intro q hq
    exact Or.inl (htmp.symm ▸ hq)
  · intro q hq _
    obtain ⟨m,hm,_⟩ := (hwf.finishReady mask).node hq
    exact asserted_finishReady mask hm

end Round

def linked (r : Registry) (fd : Fd) : Prop := ∃ h, ∃ p ∈ r.lists h, p.fd = fd

theorem WF.linked_perform (hr : r.WF frame) (o : Op) {fd : Fd} (hfd : r.linked fd) :
    (r.perform o).linked fd ∨ o.withdraws fd = true := by
  obtain ⟨h,p,hp,rfl⟩ := hfd
  by_cases hw : o.withdraws p.fd = true
  · exact Or.inr hw
  · exact Or.inl ⟨h,p,hr.mem_perform o hp (by simpa using hw),rfl⟩

theorem linked_takeReady (hr : r.WF frame) {fd : Fd} (hfd : r.linked fd) :
    (r.takeReady p).linked fd ∨ p.fd = fd := by
  obtain ⟨h,q,hq,rfl⟩ := hfd
  by_cases he : q = p
  · exact Or.inr (by rw [he])
  · refine Or.inl ⟨h,q,?_,rfl⟩
    rw [takeReady,lists_edit]
    exact (mem_unlink hr.separate).mpr ⟨he,hq⟩

theorem linked_finishReady {fd : Fd} (mask : Mask) (hfd : r.linked fd) :
    (r.finishReady p mask).linked fd := by
  obtain ⟨h,q,hq,rfl⟩ := hfd
  refine ⟨h,q,?_,rfl⟩
  unfold finishReady
  dsimp only
  split
  · rwa [lists_edit]
  split_ifs
  · rwa [lists_drop,lists_edit]
  · rwa [lists_edit]
  · exact mem_link_of_mem (by rwa [lists_edit,lists_edit])

theorem linked_raise {fd : Fd} {n : CBAndEventMask} (hn : r.cbMap.lookup fd = some n)
    (hc : n.cb ≠ none) (f : CBAndEventMask → CBAndEventMask) : (r.raise fd f).linked fd := by
  simp only [raise,onRegistered,hn,hc,if_false]
  obtain ⟨h,hh⟩ := mem_link_self (r.edit fd f) ⟨fd,n.serial⟩
  exact ⟨h,_,hh,rfl⟩

theorem linked_requeued {fd : Fd} {n : CBAndEventMask} (hn : r.cbMap.lookup p.fd = some n)
    (hc : n.cb ≠ none) {mask : Mask} (hm : mask ≠ 0) (hfd : p.fd = fd) :
    (r.finishReady p mask).linked fd := by
  simp only [finishReady,lookup_edit,if_true,hn,Option.map_some,hc,hm,if_false]
  obtain ⟨h,hh⟩ := mem_link_self ((r.edit p.fd fun n => { n with inUse := false }).edit p.fd
    fun n => { n with eventsToFake := mask }) p
  exact ⟨h,p,hh,hfd⟩

def handleEvents (r : Registry) (batch : List (Fd × Mask)) : Registry :=
  (batch.map fun e => Op.handleEvent e.1 e.2).foldl perform r

theorem watched_handleEvent (fd : Fd) (mask : Mask) (x : Fd) :
    (r.perform (.handleEvent fd mask)).watched x = r.watched x := by
  simp only [perform,raise,onRegistered]
  split
  · rfl
  split_ifs
  · rfl
  · rw [EpollServer.watched_link]
    exact EpollServer.watched_edit (f:=fun n => { n with eventsAsserted := mask })
      (fun _ => rfl) (fun _ => rfl) x

theorem watched_handleEvents (r : Registry) (batch : List (Fd × Mask)) (x : Fd) :
    (r.handleEvents batch).watched x = r.watched x := by
  induction batch generalizing r with
  | nil => rfl
  | cons e es ih => exact (ih (r.perform (.handleEvent e.1 e.2))).trans (watched_handleEvent _ _ x)

theorem asserted_handleEvents (r : Registry) {batch : List (Fd × Mask)} {x : Fd}
    (hx : x ∉ batch.map Prod.fst) : (r.handleEvents batch).asserted x = r.asserted x := by
  induction batch generalizing r with
  | nil => rfl
  | cons e es ih =>
    simp only [List.map_cons,List.mem_cons,not_or] at hx
    refine (ih (r.perform (.handleEvent e.1 e.2)) hx.2).trans (asserted_perform rfl fun m he => ?_)
    cases he
    exact hx.1 rfl

theorem asserted_handleEvent {fd : Fd} {n : CBAndEventMask} (hn : r.cbMap.lookup fd = some n)
    (hc : n.cb ≠ none) (mask : Mask) :
    (r.perform (.handleEvent fd mask)).asserted fd = some mask := by
  simp only [perform,raise,onRegistered,hn,hc,if_false,asserted_link]
  simp [asserted,lookup_edit,hn]

theorem asserted_of_reported {r : Registry} {batch : List (Fd × Mask)}
    (hb : (batch.map Prod.fst).Nodup) {fd : Fd} {mask : Mask} (hm : (fd,mask) ∈ batch)
    (hw : r.watched fd ≠ none) : (r.handleEvents batch).asserted fd = some mask := by
  induction batch generalizing r with
  | nil => simp at hm
  | cons e es ih =>
    obtain ⟨hne,hes⟩ := List.nodup_cons.mp hb
    rcases List.mem_cons.mp hm with rfl | hm
    · cases hn : r.cbMap.lookup fd with
      | none => simp [watched,hn] at hw
      | some n =>
        have hc : n.cb ≠ none := fun hc => by simp [watched,hn,hc] at hw
        exact (asserted_handleEvents _ hne).trans (asserted_handleEvent hn hc mask)
    · exact ih hes hm (by rwa [watched_handleEvent])

theorem WF.handleEvents (hr : r.WF frame) (batch : List (Fd × Mask)) :
    (r.handleEvents batch).WF frame := by
  induction batch generalizing r with
  | nil => exact hr
  | cons e es ih => exact ih (hr.perform (.handleEvent e.1 e.2))

theorem WF.linked_handleEvents (hr : r.WF frame) (batch : List (Fd × Mask)) (fd : Fd)
    (hfd : r.linked fd ∨ fd ∈ batch.map Prod.fst ∧ r.watched fd ≠ none) :
    (r.handleEvents batch).linked fd := by
  induction batch generalizing r with
  | nil => exact hfd.resolve_right (by simp)
  | cons e es ih =>
    refine ih (hr.perform (.handleEvent e.1 e.2)) ?_
    rcases hfd with hfd | ⟨hfd,hw⟩
    · exact Or.inl ((hr.linked_perform _ hfd).resolve_right (by simp [Op.withdraws]))
    · rcases List.mem_cons.mp hfd with rfl | hfd
      · left
        cases hn : r.cbMap.lookup e.1 with
        | none => simp [watched,hn] at hw
        | some n => exact linked_raise hn (fun hc => by simp [watched,hn,hc] at hw) _
      · exact Or.inr ⟨hfd,by rwa [watched_handleEvent]⟩

theorem WF.watched_of_mem (hr : r.WF frame) (hp : p ∈ r.lists h) : r.watched p.fd ≠ none := by
  obtain ⟨n,hn,_,hc⟩ := hr.node hp
  simpa [watched,hn] using hc

theorem Round.initial (hr : r.WF frame) {batch : List (Fd × Mask)}
    (hb : (batch.map Prod.fst).Nodup) :
    Round ((r.handleEvents batch).lists .readyList) batch [] (r.handleEvents batch).swapLists where
  pending p hp := ⟨hp,by simp⟩
  fate p hp := Or.inl hp
  final _ := .nil
  listed _ h := by simp at h
  reported fd mask hm _ := by
    refine ⟨fun p hp hfd => ?_,by simp⟩
    have hw := (hr.handleEvents batch).watched_of_mem (h:=.readyList) hp
    rw [hfd,watched_handleEvents] at hw
    exact asserted_of_reported hb hm hw

end Registry

namespace EpollConfig

def round : Machine EpollConfig Event Abort :=
  ⟨fun c e => machine.admits c e ∧ c.control ≠ .idle,machine.step⟩

theorem run_of_round {c d : EpollConfig} {es : List Event} (h : round.Run c es d) :
    machine.Run c es d := by
  induction h with
  | nil => exact .nil _
  | cons he hs _ ih => exact .cons he.1 hs ih

/-- Everything a step inside a round can be. -/
inductive RoundStep (a : RegistryConfig) : Event → RegistryConfig → Prop
  | op (o : Op) :
    RoundStep a (.op o) ⟨a.registry.perform o,a.control,a.trace ++ [.did o]⟩
  | done : a.registry.lists .tmpList = [] →
    RoundStep a .nextReady ⟨a.registry,.idle,a.trace⟩
  | call (p rest n cb) : a.control = .loop → a.registry.lists .tmpList = p :: rest →
    a.registry.deref p = some n → n.cb = some cb → RoundStep a .nextReady
      ⟨a.registry.takeReady p,.onEvent p,
        a.trace ++ [.called ⟨cb,p.fd,n.eventsAsserted ||| n.eventsToFake⟩]⟩
  | returns (p mask) : a.control = .onEvent p → RoundStep a (.onEventReturns mask)
      ⟨a.registry.finishReady p mask,.loop,a.trace ++ [.returned p.fd mask]⟩

theorem Coupled.roundStep {c c' : EpollConfig} {a : RegistryConfig} {e : Event} (h : Coupled c a)
    (he : round.admits c e) (hs : round.step c e = .ok c') :
    ∃ a', Coupled c' a' ∧ RoundStep a e a' := by
  obtain ⟨c₁,h₁,h₂⟩ := h.step he.1
  have hc : c₁ = c' := by
    have h₃ : Except.ok c₁ = Except.ok c' := h₁.symm.trans hs
    exact Except.ok.inj h₃
  subst hc
  refine ⟨_,h₂,?_⟩
  obtain ⟨ha,hidle⟩ := he
  rw [h.control] at hidle
  cases e with
  | op o => exact .op o
  | callReadyListCallbacks => exact absurd (h.control ▸ ha) hidle
  | nextReady =>
    have hloop : a.control = .loop := h.control ▸ ha
    cases hl : a.registry.lists .tmpList with
    | nil => simpa [RegistryConfig.step,hl] using RoundStep.done hl
    | cons p rest =>
      obtain ⟨n,hn,hcb⟩ := h.wf.member (h:=.tmpList) (p:=p) (by simp [hl])
      obtain ⟨cb,hcb⟩ := Option.ne_none_iff_exists'.mp hcb
      simpa [RegistryConfig.step,hl,hn,hcb] using RoundStep.call p rest n cb hloop hl hn hcb
  | onEventReturns mask =>
    have hon : a.control.isOnEvent = true := h.control ▸ ha
    cases hc : a.control with
    | idle => exact absurd hc hidle
    | loop => simp [hc,Control.isOnEvent] at hon
    | onEvent p => simpa [RegistryConfig.step,hc] using RoundStep.returns p mask hc

def InRound (ready : List NodePtr) (batch : List (Fd × Mask)) (past : List Happened)
    (c : EpollConfig) : Prop :=
  ∃ a τ, Coupled c a ∧ c.trace = past ++ τ ∧ Registry.Round ready batch τ a.registry

theorem inRound_step {ready : List NodePtr} {batch : List (Fd × Mask)} {past : List Happened}
    {c c' : EpollConfig} {e : Event} (h : InRound ready batch past c) (he : round.admits c e)
    (hs : round.step c e = .ok c') : InRound ready batch past c' := by
  obtain ⟨a,τ,ha,hτ,hr⟩ := h
  obtain ⟨a',ha',hstep⟩ := ha.roundStep he hs
  rw [ha.trace] at hτ
  have hframe := ha.wf
  cases hstep with
  | op o =>
    exact ⟨_,_,ha',by rw [ha'.trace,hτ,List.append_assoc],hr.op ha.wf o⟩
  | done => exact ⟨_,τ,ha',by rw [ha'.trace,hτ],hr⟩
  | call p rest n cb hc hl hn _ =>
    rw [hc] at hframe
    exact ⟨_,_,ha',by rw [ha'.trace,hτ,List.append_assoc],hr.called hframe hl hn cb⟩
  | returns p mask hc =>
    rw [hc] at hframe
    exact ⟨_,_,ha',by rw [ha'.trace,hτ,List.append_assoc],hr.returned hframe mask⟩

/-- A descriptor that was on a ready list still is, or something was done about it. -/
def StillReady (fd : Fd) (past : List Happened) (c : EpollConfig) : Prop :=
  ∃ a σ, Coupled c a ∧ c.trace = past ++ σ ∧
    (a.registry.linked fd ∨ ∃ h ∈ σ, h.calls fd = true ∨ h.withdraws fd = true)

theorem stillReady_step {fd : Fd} {past : List Happened} {c c' : EpollConfig} {e : Event}
    (h : StillReady fd past c) (he : round.admits c e) (hs : round.step c e = .ok c') :
    StillReady fd past c' := by
  obtain ⟨a,σ,ha,hσ,hl⟩ := h
  obtain ⟨a',ha',hstep⟩ := ha.roundStep he hs
  rw [ha.trace] at hσ
  have happend : ∀ x, a'.trace = a.trace ++ [x] →
      (a.registry.linked fd → a'.registry.linked fd ∨ x.calls fd = true ∨ x.withdraws fd = true) →
      StillReady fd past c' := by
    intro x hx hkeep
    refine ⟨a',σ ++ [x],ha',by rw [ha'.trace,hx,hσ,List.append_assoc],?_⟩
    rcases hl with hl | ⟨h,hh,hw⟩
    · rcases hkeep hl with h₁ | h₁
      · exact Or.inl h₁
      · exact Or.inr ⟨x,by simp,h₁⟩
    · exact Or.inr ⟨h,by simp [hh],hw⟩
  cases hstep with
  | op o =>
    refine happend _ rfl fun hl => ?_
    rcases ha.wf.linked_perform o hl with h₁ | h₁
    · exact Or.inl h₁
    · exact Or.inr (Or.inr h₁)
  | done => exact ⟨_,σ,ha',by rw [ha'.trace,hσ],hl⟩
  | call p rest n cb =>
    refine happend _ rfl fun hl => ?_
    rcases Registry.linked_takeReady (p:=p) ha.wf hl with h₁ | h₁
    · exact Or.inl h₁
    · exact Or.inr (Or.inl (by simpa [Happened.calls] using h₁))
  | returns p mask =>
    exact happend _ rfl fun hl => Or.inl (Registry.linked_finishReady mask hl)

theorem Coupled.registered {c : EpollConfig} {a : RegistryConfig} (h : Coupled c a) {fd : Fd}
    (hfd : c.server.registered fd = true) :
    ∃ n, a.registry.cbMap.lookup fd = some n ∧ n.cb ≠ none := by
  rw [EpollServer.registered,h.refines.cbMap] at hfd
  cases hn : a.registry.cbMap.lookup fd with
  | none => simp [hn] at hfd
  | some n =>
    rw [hn] at hfd
    exact ⟨n,rfl,by simpa [Option.isSome_iff_ne_none] using hfd⟩

theorem stillReady_of_makesReady {fd : Fd} {c c' : EpollConfig} {a : RegistryConfig} {e : Event}
    (ha : Coupled c a) (he : round.admits c e) (hs : round.step c e = .ok c')
    (hm : c.makesReady fd e) : StillReady fd c'.trace c' := by
  obtain ⟨a',ha',hstep⟩ := ha.roundStep he hs
  refine ⟨a',[],ha',by simp,Or.inl ?_⟩
  cases hstep with
  | op o =>
    cases o with
    | handleEvent x mask =>
      obtain ⟨rfl,hreg⟩ := hm
      obtain ⟨n,hn,hc⟩ := ha.registered hreg
      exact Registry.linked_raise hn hc _
    | setFDReady x mask =>
      obtain ⟨rfl,hreg⟩ := hm
      obtain ⟨n,hn,hc⟩ := ha.registered hreg
      exact Registry.linked_raise hn hc _
    | _ => exact hm.elim
  | done => exact hm.elim
  | call => exact hm.elim
  | returns p mask hp =>
    obtain ⟨hmask,hreg,q,hq,hfd⟩ := hm
    rw [ha.control,hp] at hq
    cases hq
    obtain ⟨n,hn,hc⟩ := ha.registered hreg
    exact Registry.linked_requeued (hfd ▸ hn) hc hmask hfd

theorem perform_ok {c : EpollConfig} {a : RegistryConfig} (h : Coupled c a)
    (hc : c.control ≠ .loop) (os : List Op) :
    ∃ c', c.perform os = .ok c' ∧ machine.Run c (os.map .op) c' ∧ c'.control = c.control ∧
      Coupled c' ⟨os.foldl Registry.perform a.registry,a.control,a.trace ++ os.map .did⟩ := by
  induction os generalizing c a with
  | nil => exact ⟨c,rfl,.nil c,rfl,by simpa using h⟩
  | cons o os ih =>
    obtain ⟨c₁,h₁,ha₁⟩ := h.step (e:=.op o) hc
    have hctl : c₁.control = c.control := by rw [ha₁.control,h.control]; rfl
    obtain ⟨c₂,h₂,hrun,hctl₂,ha₂⟩ := ih ha₁ (by rwa [hctl])
    refine ⟨c₂,by rw [perform,h₁,except_ok_bind,h₂],.cons hc h₁ hrun,hctl₂.trans hctl,?_⟩
    simpa [RegistryConfig.step] using ha₂

theorem tmpList_foldl_perform {r : Registry} {frame : Option NodePtr} (hr : r.WF frame)
    (os : List Op) : ((os.foldl Registry.perform r).lists .tmpList).Sublist (r.lists .tmpList) := by
  induction os generalizing r with
  | nil => exact .refl _
  | cons o os ih => exact (ih (hr.perform o)).trans (perform_tmpList hr o)

theorem round_of_ops {c d : EpollConfig} {os : List Op} {p : NodePtr} (hc : c.control = .onEvent p)
    (h : machine.Run c (os.map .op) d) : round.Run c (os.map .op) d := by
  induction os generalizing c with
  | nil =>
    cases h
    exact .nil _
  | cons o os ih =>
    obtain ⟨c₁,he,hs,ht⟩ := h.cons_inv
    have hc₁ : c₁.control = .onEvent p := by
      rw [← hc]
      simp only [machine,step] at hs
      cases hp : c.server.perform .silent o with
      | error => simp [hp,bind,Except.bind] at hs
      | ok s =>
        rw [hp] at hs
        cases hs
        rfl
    exact .cons ⟨he,by simp [hc]⟩ hs (ih hc₁ ht)

/-- The loop of a round ends: each turn takes one entry off its list, and no
operation of a callback puts one on it. -/
theorem serve_ends (callbacks : Callbacks) {n : ℕ} {c : EpollConfig} {a : RegistryConfig}
    (h : Coupled c a) (hc : a.control = .loop) (hn : (a.registry.lists .tmpList).length ≤ n) :
    ∃ es d, round.Run c es d ∧ d.control = .idle ∧
      ∀ fuel, n < fuel → serve callbacks fuel c = .ok d := by
  induction n generalizing c a with
  | zero =>
    have hl : a.registry.lists .tmpList = [] := List.length_eq_zero_iff.mp (Nat.le_zero.mp hn)
    have hadm : machine.admits c .nextReady := h.control.trans hc
    obtain ⟨c₁,h₁,ha₁⟩ := h.step hadm
    have hidle : c₁.control = .idle := by rw [ha₁.control]; simp [RegistryConfig.step,hl]
    refine ⟨[.nextReady],c₁,.single ⟨hadm,by simp [h.control,hc]⟩ h₁,hidle,fun fuel hf => ?_⟩
    cases fuel with
    | zero => omega
    | succ fuel => simp [serve,h₁,hidle,Control.isOnEvent]
  | succ n ih =>
    have hadm : machine.admits c .nextReady := h.control.trans hc
    have hround : round.admits c .nextReady := ⟨hadm,by simp [h.control,hc]⟩
    obtain ⟨c₁,h₁,_⟩ := h.step hadm
    obtain ⟨a₁,ha₁,hstep⟩ := h.roundStep hround h₁
    cases hstep with
    | done =>
      refine ⟨[.nextReady],c₁,.single hround h₁,ha₁.control,fun fuel hf => ?_⟩
      cases fuel with
      | zero => omega
      | succ fuel => simp [serve,h₁,ha₁.control,Control.isOnEvent]
    | call p rest m cb _ hl hm hcb =>
      have hon : c₁.control = .onEvent p := ha₁.control
      obtain ⟨c₂,h₂,hrun₂,hctl₂,ha₂⟩ := perform_ok ha₁ (by simp [hon]) (callbacks c₁.trace).1
      have hon₂ : c₂.control = .onEvent p := hctl₂.trans hon
      have hadm₃ : machine.admits c₂ (.onEventReturns (callbacks c₁.trace).2) := by
        simp [machine,admits,hon₂,Control.isOnEvent]
      have hround₃ : round.admits c₂ (.onEventReturns (callbacks c₁.trace).2) :=
        ⟨hadm₃,by simp [hon₂]⟩
      obtain ⟨c₃,h₃,ha₃⟩ := ha₂.step hadm₃
      have hstep₃ : RegistryConfig.step ⟨(callbacks c₁.trace).1.foldl Registry.perform
          (a.registry.takeReady p),.onEvent p,a.trace ++ [Happened.called ⟨cb,p.fd,m.eventsAsserted |||
          m.eventsToFake⟩] ++ (callbacks c₁.trace).1.map .did⟩
          (.onEventReturns (callbacks c₁.trace).2) = ⟨_,.loop,_⟩ := rfl
      rw [hstep₃] at ha₃
      have hlen : ((((callbacks c₁.trace).1.foldl Registry.perform
          (a.registry.takeReady p)).finishReady p (callbacks c₁.trace).2).lists
          .tmpList).length ≤ n := by
        rw [Registry.tmpList_finishReady]
        have hwf : (a.registry.takeReady p).WF (some p) := ha₁.wf
        have h₄ := (tmpList_foldl_perform hwf (callbacks c₁.trace).1).length_le
        have h₅ : (a.registry.takeReady p).lists .tmpList = rest := by
          rw [Registry.takeReady,Registry.lists_edit]
          simp [Registry.unlink,hl]
        rw [h₅] at h₄
        rw [hl,List.length_cons] at hn
        omega
      obtain ⟨es,d,hrun,hidle,hserve⟩ := ih ha₃ rfl hlen
      refine ⟨_,d,.cons hround h₁ ((round_of_ops hon hrun₂).trans (.cons hround₃ h₃ hrun)),hidle,
        fun fuel hf => ?_⟩
      cases fuel with
      | zero => omega
      | succ fuel =>
        rw [serve,h₁,except_ok_bind,hon]
        simp only [Control.isOnEvent,if_true,h₂,h₃,except_ok_bind]
        exact hserve fuel (by omega)

theorem round_between {c c₀ c₁ c₂ d : EpollConfig} {es es₁ es₂ : List Event} {e : Event}
    (h₀ : machine.step c .callReadyListCallbacks = .ok c₀) (hr : round.Run c₀ es d)
    (he : .callReadyListCallbacks :: es = es₁ ++ e :: es₂) (hne : e ≠ .callReadyListCallbacks)
    (h₁ : machine.Run c es₁ c₁) (h₂ : machine.step c₁ e = .ok c₂) :
    (∃ es', round.Run c₀ es' c₁) ∧ round.admits c₁ e ∧ round.Run c₂ es₂ d := by
  cases es₁ with
  | nil => exact absurd (List.cons.inj he).1.symm hne
  | cons f es₁ =>
    obtain ⟨rfl,rfl⟩ := List.cons.inj he
    obtain ⟨x,_,hx,hrun⟩ := h₁.cons_inv
    rw [h₀] at hx
    cases hx
    obtain ⟨y,hy₁,hy₂⟩ := hr.split
    cases (run_of_round hy₁).unique hrun
    obtain ⟨z,hadm,hz,hz₂⟩ := hy₂.cons_inv
    have hzc : z = c₂ := Except.ok.inj (hz.symm.trans h₂)
    exact ⟨⟨es₁,hy₁⟩,hadm,hzc ▸ hz₂⟩

theorem delivered_of_round {batch : List (Fd × Mask)} {ready : List NodePtr} {es : List Event}
    {c c₀ d : EpollConfig} {τ : List Happened}
    (h₀ : machine.step c .callReadyListCallbacks = .ok c₀) (hin : InRound ready batch c.trace c₀)
    (hr : round.Run c₀ es d) (hd : d.control = .idle) (hτ : d.trace = c.trace ++ τ) :
    Delivered batch c ready (.callReadyListCallbacks :: es) d τ := by
  obtain ⟨a,τ',ha,hτ',hround⟩ := hr.invariant (fun h he hs => inRound_step h he hs) hin
  have hcut : τ' = τ := List.append_cancel_left (hτ'.symm.trans hτ)
  subst hcut
  have htmp : a.registry.lists .tmpList = [] := ha.tmp (ha.control ▸ hd)
  constructor
  · intro p hp
    exact (hround.fate p hp).resolve_left (by simp [htmp])
  · exact hround.final
  · exact hround.listed
  · intro es₁ es₂ c₁ c₂ p he hrun hs hp
    obtain ⟨⟨es',hes'⟩,hadm,_⟩ := round_between h₀ hr he (by simp) hrun hs
    obtain ⟨a₁,_,ha₁,_⟩ := hes'.invariant (fun h he hs => inRound_step h he hs) hin
    obtain ⟨a₂,ha₂,hstep⟩ := ha₁.roundStep hadm hs
    cases hstep with
    | done => rw [ha₂.control] at hp; cases hp
    | call q rest n cb _ _ hn hcb =>
      rw [ha₂.control] at hp
      cases hp
      exact ⟨n,cb,by rw [ha₁.refines.deref,hn],hcb,by rw [ha₂.trace,ha₁.trace]⟩
  · intro fd mask hm hτ
    exact (hround.reported fd mask hm hτ).2
  · intro es₁ e es₂ c₁ c₂ fd he hrun hs hm
    have hne : e ≠ .callReadyListCallbacks := by
      rintro rfl
      exact hm
    obtain ⟨⟨es',hes'⟩,hadm,hrest⟩ := round_between h₀ hr he hne hrun hs
    obtain ⟨a₁,_,ha₁,_⟩ := hes'.invariant (fun h he hs => inRound_step h he hs) hin
    obtain ⟨a₂,σ,ha₂,hσ,hl⟩ := hrest.invariant (fun h he hs => stillReady_step h he hs)
      (stillReady_of_makesReady ha₁ hadm hs hm)
    rcases hl with ⟨k,p,hp,hfd⟩ | hl
    · have htmp₂ : a₂.registry.lists .tmpList = [] := ha₂.tmp (ha₂.control ▸ hd)
      cases k with
      | readyList => exact Or.inl ⟨_,htmp₂ ▸ ha₂.readyLists,p,hp,hfd⟩
      | tmpList => simp [htmp₂] at hp
    · exact Or.inr ⟨σ,hσ,hl⟩

theorem delivered_nil {batch : List (Fd × Mask)} {c : EpollConfig} : Delivered batch c [] [] c [] :=
  ⟨by simp,by simp,by simp,by simp,by simp,by simp⟩

/-- Whatever the callbacks do, the event phase ends, and every entry of the ready
list gets its turn exactly once unless an earlier callback withdrew it. -/
theorem eventPhase_delivers {es : List Event} {c : EpollConfig} (h : machine.Run init es c)
    (hc : c.control = .idle) (callbacks : Callbacks) {batch : List (Fd × Mask)}
    (hb : (batch.map Prod.fst).Nodup) :
    ∃ c₁ ready steps d τ, c.handleEvents batch = .ok c₁ ∧ c₁.ReadyLists ready [] ∧
      (∀ e ∈ batch, c.server.registered e.1 = true → ∃ p ∈ ready, p.fd = e.1) ∧
      (∀ fuel, ready.length < fuel →
        c.waitForEventsAndCallHandleEvents callbacks fuel batch = .ok d) ∧
      machine.Run c₁ steps d ∧ d.control = .idle ∧ d.trace = c₁.trace ++ τ ∧
      Delivered batch c₁ ready steps d τ := by
  obtain ⟨a,ha⟩ := sound_inductive.run h ⟨_,.initial⟩
  obtain ⟨c₁,h₁,hrun₁,hctl₁,ha₁⟩ := perform_ok ha (by simp [hc])
    (batch.map fun e => .handleEvent e.1 e.2)
  have hidle : c₁.control = .idle := hctl₁.trans hc
  have htmp : (a.registry.handleEvents batch).lists .tmpList = [] := ha₁.tmp (ha₁.control ▸ hidle)
  have hlists : c₁.ReadyLists ((a.registry.handleEvents batch).lists .readyList) [] :=
    htmp ▸ ha₁.readyLists
  have hreg : ∀ e ∈ batch, c.server.registered e.1 = true →
      ∃ p ∈ (a.registry.handleEvents batch).lists .readyList, p.fd = e.1 := by
    intro e he hreg
    obtain ⟨n,hn,hcb⟩ := ha.registered hreg
    obtain ⟨k,p,hp,hfd⟩ := ha.wf.linked_handleEvents batch e.1
      (Or.inr ⟨List.mem_map_of_mem he,by simpa [Registry.watched,hn] using hcb⟩)
    cases k with
    | readyList => exact ⟨p,hp,hfd⟩
    | tmpList => simp [htmp] at hp
  have hfirst := ha₁.refines.rep.lhFirst .readyList
  by_cases hempty : (a.registry.handleEvents batch).lists .readyList = []
  · refine ⟨c₁,[],[],c₁,[],h₁,?_,hempty ▸ hreg,fun fuel _ => ?_,.nil _,hidle,by simp,delivered_nil⟩
    · exact hempty ▸ hlists
    · have hnone : c₁.server.links.lhFirst .readyList = none := by
        rw [hfirst]
        exact congrArg List.head? hempty
      simp [waitForEventsAndCallHandleEvents,handleEvents,h₁,hnone]
  · have hsome : c₁.server.links.lhFirst .readyList ≠ none := by
      rw [hfirst]
      exact fun hn => hempty (List.head?_eq_none_iff.mp hn)
    obtain ⟨c₀,h₀,ha₀⟩ := ha₁.step (e:=.callReadyListCallbacks) hidle
    have htrace : c₀.trace = c₁.trace := ha₀.trace.trans ha₁.trace.symm
    obtain ⟨es',d,hr,hd,hserve⟩ := serve_ends callbacks ha₀ rfl
      (n:=((a.registry.handleEvents batch).lists .readyList).length) le_rfl
    have hin : InRound ((a.registry.handleEvents batch).lists .readyList) batch c₁.trace c₀ :=
      ⟨_,[],ha₀,by simp [htrace],.initial ha.wf hb⟩
    obtain ⟨_,τ,_,hτ,_⟩ := hr.invariant (fun h he hs => inRound_step h he hs) hin
    refine ⟨c₁,_,.callReadyListCallbacks :: es',d,τ,h₁,hlists,hreg,fun fuel hf => ?_,.cons hidle h₀ (run_of_round hr),hd,hτ,
      delivered_of_round h₀ hin hr hd hτ⟩
    simp [waitForEventsAndCallHandleEvents,handleEvents,h₁,hsome,callReadyListCallbacks,h₀,
      hserve fuel hf]

/-- Two reported descriptors whose callbacks withdraw each other and ask for more. -/
theorem eventPhase_delivers_pair : ∃ c, machine.Run init
    [.op (.registerFD 3 7 epollIn),.op (.registerFD 4 8 epollIn)] c ∧
    ∃ c₁ ready steps d τ, c.handleEvents [(3,epollIn),(4,epollOut)] = .ok c₁ ∧
      c₁.ReadyLists ready [] ∧
      (∀ e ∈ [((3 : Fd),epollIn),(4,epollOut)], c.server.registered e.1 = true →
        ∃ p ∈ ready, p.fd = e.1) ∧
      (∀ fuel, ready.length < fuel → c.waitForEventsAndCallHandleEvents
        (fun _ => ([.setFDNotReady 3,.setFDReady 4 epollOut],epollIn)) fuel
        [(3,epollIn),(4,epollOut)] = .ok d) ∧
      machine.Run c₁ steps d ∧ d.control = .idle ∧ d.trace = c₁.trace ++ τ ∧
      Delivered [(3,epollIn),(4,epollOut)] c₁ ready steps d τ :=
  let ⟨c,hc,hi⟩ := machine.exists_run_of_exec_any (f:=fun c => c.control = .idle)
    (by decide +kernel)
  ⟨c,hc,eventPhase_delivers hc (by simpa using hi) _ (by decide)⟩

end EpollConfig
end CmuQuic
