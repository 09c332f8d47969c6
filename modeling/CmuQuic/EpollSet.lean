import CmuQuic.ReadyList

/-! Agreement between the registrations and the netdp epoll set. What the epoll
set holds for a descriptor is a fold over the requests made for it. -/
namespace CmuQuic
open EpollServer EpollConfig

namespace Registry

def mask (r : Registry) (fd : Fd) : Option Mask :=
  (r.cbMap.lookup fd).bind fun n => n.cb.map fun _ => n.eventMask

end Registry

/-- Apply one modify request: removals come before additions. -/
def modifyRequest (removeEvent addEvent : Mask) (m : Option Mask) : Option Mask :=
  m.map fun mask => (mask &&& ~~~removeEvent) ||| addEvent

/-- What one operation asks of a descriptor, given what was asked before. A
registration starts afresh; a modification of an unregistered one is ignored. -/
def request (fd : Fd) (m : Option Mask) : Op → Option Mask
  | .registerFD x _ mask => if x = fd then some mask else m
  | .unregisterFD x => if x = fd then none else m
  | .modifyCallback x mask => if x = fd then modifyRequest (~~~0#32) mask m else m
  | .stopRead x => if x = fd then modifyRequest epollIn 0 m else m
  | .startRead x => if x = fd then modifyRequest 0 epollIn m else m
  | .stopWrite x => if x = fd then modifyRequest epollOut 0 m else m
  | .startWrite x => if x = fd then modifyRequest 0 epollOut m else m
  | .handleEvent _ _ => m
  | .setFDReady _ _ => m
  | .setFDNotReady _ => m

def requestEvent (fd : Fd) (m : Option Mask) : Event → Option Mask
  | .op o => request fd m o
  | _ => m

def requested (es : List Event) (fd : Fd) : Option Mask := es.foldl (requestEvent fd) none

namespace Registry

theorem mask_congr {r r' : Registry} {fd : Fd}
    (h : r'.cbMap.lookup fd = r.cbMap.lookup fd) : r'.mask fd = r.mask fd := by
  rw [mask,mask,h]

theorem mask_edit_of_ne {r : Registry} {fd x : Fd} {f : CBAndEventMask → CBAndEventMask}
    (h : x ≠ fd) : (r.edit fd f).mask x = r.mask x :=
  mask_congr (by rw [lookup_edit,if_neg h])

theorem mask_edit {r : Registry} (fd : Fd) {f : CBAndEventMask → CBAndEventMask}
    (hc : ∀ n, (f n).cb = n.cb) (hm : ∀ n, (f n).eventMask = n.eventMask) (x : Fd) :
    (r.edit fd f).mask x = r.mask x := by
  by_cases h : x = fd
  · subst h
    rw [mask,lookup_edit,if_pos rfl,mask]
    cases r.cbMap.lookup x <;> simp [hc,hm]
  · exact mask_edit_of_ne h

theorem mask_raise (r : Registry) (fd : Fd) {f : CBAndEventMask → CBAndEventMask}
    (hc : ∀ n, (f n).cb = n.cb) (hm : ∀ n, (f n).eventMask = n.eventMask) (x : Fd) :
    (r.raise fd f).mask x = r.mask x := by
  unfold raise onRegistered
  split
  · rfl
  split_ifs
  · rfl
  · rw [mask_congr (r:=r.edit fd f) (by rw [cbMap_link]),mask_edit fd hc hm]

theorem mask_modify (r : Registry) (fd x : Fd) (a b : Mask) :
    (r.modify fd a b).mask x = if fd = x then modifyRequest a b (r.mask x) else r.mask x := by
  unfold modify onRegistered
  split_ifs with hx
  · subst hx
    cases hn : r.cbMap.lookup fd with
    | none => simp [mask,hn,modifyRequest]
    | some n =>
      cases hc : n.cb with
      | none => simp [mask,hn,hc,modifyRequest]
      | some cb => simp [mask,hn,hc,modifyRequest,lookup_edit]
  · split
    · rfl
    split_ifs
    · rfl
    · exact mask_edit_of_ne (Ne.symm hx)

theorem mask_perform (r : Registry) (o : Op) (x : Fd) :
    (r.perform o).mask x = request x (r.mask x) o := by
  cases o with
  | registerFD fd cb mask =>
    simp only [perform,register,request]
    split
    · rename_i hn
      split_ifs with hx
      · subst hx; simp [Registry.mask,insertNode]
      · exact mask_congr (by rw [insertNode,lookup_insert_ite,if_neg (Ne.symm hx)])
    · rename_i n hn
      split_ifs with hx
      · subst hx; simp [Registry.mask,lookup_edit,hn]
      · exact mask_edit_of_ne (Ne.symm hx)
  | unregisterFD fd =>
    simp only [perform,unregister,onRegistered,request]
    split
    · rename_i hn
      split_ifs with hx
      · subst hx; simp [Registry.mask,hn]
      · rfl
    · rename_i n hn
      by_cases hx : fd = x
      · subst hx
        rw [if_pos rfl]
        split_ifs with hc
        · simp [Registry.mask,hn,hc]
        · simp [Registry.mask,lookup_edit,hn]
        · simp [Registry.mask,drop]
      · rw [if_neg hx]
        split_ifs
        · rfl
        · exact mask_edit_of_ne (Ne.symm hx)
        · exact mask_congr (by rw [drop,lookup_erase_ite,if_neg (Ne.symm hx)]; rfl)
  | modifyCallback fd mask => exact mask_modify r fd x _ _
  | stopRead fd => exact mask_modify r fd x _ _
  | startRead fd => exact mask_modify r fd x _ _
  | stopWrite fd => exact mask_modify r fd x _ _
  | startWrite fd => exact mask_modify r fd x _ _
  | handleEvent fd mask =>
    exact mask_raise r fd (f:=fun n => { n with eventsAsserted := mask })
      (fun _ => rfl) (fun _ => rfl) x
  | setFDReady fd mask =>
    exact mask_raise r fd (f:=fun n => { n with eventsToFake := mask })
      (fun _ => rfl) (fun _ => rfl) x
  | setFDNotReady fd =>
    simp only [perform,notReady,request]
    split <;> rfl

theorem mask_finishReady {r : Registry} {p : NodePtr} (m : Mask) (x : Fd) :
    (r.finishReady p m).mask x = r.mask x := by
  have h₁ : ∀ x, (r.edit p.fd fun n => { n with inUse := false }).mask x = r.mask x :=
    mask_edit p.fd (fun _ => rfl) (fun _ => rfl)
  unfold finishReady
  dsimp only
  split
  · exact h₁ x
  rename_i n hn
  split_ifs with hc hm
  · by_cases hx : x = p.fd
    · rw [← h₁ x,Registry.mask,Registry.mask,hx,hn]
      simp [drop,hc]
    · rw [← h₁ x]
      exact mask_congr (by rw [drop,lookup_erase_ite,if_neg hx])
  · exact h₁ x
  · rw [← h₁ x,← mask_edit (r:=r.edit p.fd fun n => { n with inUse := false }) p.fd
      (f:=fun n => { n with eventsToFake := m }) (fun _ => rfl) (fun _ => rfl) x]
    exact mask_congr (by rw [cbMap_link])

end Registry

theorem RegistryConfig.mask_step (a : RegistryConfig) (e : Event) (x : Fd) :
    (a.step e).registry.mask x = requestEvent x (a.registry.mask x) e := by
  cases e with
  | op o => exact Registry.mask_perform _ o x
  | callReadyListCallbacks => rfl
  | nextReady =>
    simp only [step,requestEvent]
    split
    · rfl
    rename_i p _ _
    split
    · rfl
    · exact Registry.mask_edit (r:=a.registry.unlink p) p.fd
        (f:=fun n => { n with eventsAsserted := 0, eventsToFake := 0, inUse := true })
        (fun _ => rfl) (fun _ => rfl) x
  | onEventReturns m =>
    simp only [step,requestEvent]
    split
    · exact Registry.mask_finishReady m x
    · rfl

theorem requested_of_run {es : List Event} {c : EpollConfig} (h : machine.Run init es c) :
    ∃ a, Coupled c a ∧ ∀ fd, a.registry.mask fd = requested es fd := by
  have hinv := h.history (P:=fun hs c => ∃ a, Coupled c a ∧
      ∀ fd, a.registry.mask fd = requested hs fd) (p:=[]) ?_
    ⟨_,.initial,fun _ => rfl⟩
  · exact hinv
  · rintro hs c e c' ⟨a,ha,hm⟩ he hc
    obtain ⟨c'',hc'',ha'⟩ := ha.step he
    rw [hc] at hc''
    cases hc''
    refine ⟨_,ha',fun fd => ?_⟩
    rw [RegistryConfig.mask_step,hm fd]
    simp [requested]

/-- After every event of every run the epoll set holds exactly the registered
descriptors with the masks their requests fold to, and no `epoll_ctl` can fail. -/
theorem epollSet_of_run {es : List Event} {c : EpollConfig} (h : machine.Run init es c) :
    (∀ fd, (fd ∈ c.server.epollSet ↔ ∃ n, c.server.cbMap.lookup fd = some n ∧ n.cb ≠ none)) ∧
    (∀ fd n, c.server.cbMap.lookup fd = some n → n.cb ≠ none →
      c.server.epollSet.lookup fd = some (n.eventMask ||| epollErr ||| epollHup) ∧
      requested es fd = some n.eventMask) ∧
    (∀ fd mask, requested es fd = some mask →
      ∃ n, c.server.cbMap.lookup fd = some n ∧ n.cb ≠ none ∧ n.eventMask = mask) ∧
    machine.Safe c := by
  obtain ⟨a,ha,hm⟩ := requested_of_run h
  have hc := ha.refines.cbMap
  refine ⟨?_,?_,?_,sound_inductive.safe ⟨a,ha⟩⟩
  · intro fd
    rw [hc]
    constructor
    · intro hfd
      cases hn : a.registry.cbMap.lookup fd with
      | none => exact absurd hfd (not_mem_epollSet ha.agree hn)
      | some n => exact ⟨n,rfl,(mem_epollSet ha.agree hn).mp hfd⟩
    · rintro ⟨n,hn,hcb⟩
      exact (mem_epollSet ha.agree hn).mpr hcb
  · intro fd n hn hcb
    rw [hc] at hn
    obtain ⟨cb,hcb⟩ := Option.ne_none_iff_exists'.mp hcb
    rw [ha.agree fd,Registry.watched,← hm fd,Registry.mask,hn]
    simp [hcb,EpollServer.watched]
  · intro fd mask hmask
    rw [hc]
    rw [← hm fd,Registry.mask] at hmask
    obtain ⟨n,hn,hmask⟩ := Option.bind_eq_some_iff.mp hmask
    obtain ⟨cb,hcb,hmask⟩ := Option.map_eq_some_iff.mp hmask
    exact ⟨n,hn,by simp [hcb],hmask⟩

/-- A callback unregisters its own descriptor and registers it again, so that the
node is recycled while it is in use, and then stops reading from it. -/
theorem epollSet_of_recycling_run : ∃ c, machine.Run init
    [.op (.registerFD 5 1 epollIn),.op (.handleEvent 5 epollIn),.callReadyListCallbacks,.nextReady,
      .op (.unregisterFD 5),.op (.registerFD 5 2 (epollIn ||| epollOut)),.op (.stopRead 5),
      .onEventReturns 0,.nextReady] c ∧
    (∀ fd, (fd ∈ c.server.epollSet ↔ ∃ n, c.server.cbMap.lookup fd = some n ∧ n.cb ≠ none)) ∧
    (∀ fd n, c.server.cbMap.lookup fd = some n → n.cb ≠ none →
      c.server.epollSet.lookup fd = some (n.eventMask ||| epollErr ||| epollHup) ∧
      requested [.op (.registerFD 5 1 epollIn),.op (.handleEvent 5 epollIn),
        .callReadyListCallbacks,.nextReady,.op (.unregisterFD 5),
        .op (.registerFD 5 2 (epollIn ||| epollOut)),.op (.stopRead 5),
        .onEventReturns 0,.nextReady] fd = some n.eventMask) ∧
    (∀ fd mask, requested [.op (.registerFD 5 1 epollIn),.op (.handleEvent 5 epollIn),
        .callReadyListCallbacks,.nextReady,.op (.unregisterFD 5),
        .op (.registerFD 5 2 (epollIn ||| epollOut)),.op (.stopRead 5),
        .onEventReturns 0,.nextReady] fd = some mask →
      ∃ n, c.server.cbMap.lookup fd = some n ∧ n.cb ≠ none ∧ n.eventMask = mask) ∧
    machine.Safe c :=
  let ⟨c,hc⟩ := machine.exists_run_of_exec (by decide +kernel)
  ⟨c,hc,epollSet_of_run hc⟩

end CmuQuic
