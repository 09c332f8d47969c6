import CmuQuic.EpollSet
import CmuQuic.PollTimeout

/-! `NumFDsRegistered` takes the size of `cb_map_` for the number of registrations and
one internal descriptor. The constructor registers no such descriptor, and a node
stays in the map while the `OnEvent` that unregistered it is running. -/
namespace CmuQuic
open EpollServer EpollConfig

def EpollServer.numFDsRegistered (s : EpollServer) : Except Abort ℤ :=
  let size : ℤ := s.cbMap.keys.card
  if 1 ≤ size then .ok (toInt (size-1)) else .error .dcheck

def registerEvent (fds : Finset Fd) : Event → Finset Fd
  | .op (.registerFD fd _ _) => insert fd fds
  | .op (.unregisterFD fd) => fds.erase fd
  | _ => fds

def registeredFds (es : List Event) : Finset Fd := es.foldl registerEvent ∅

/-- An `OnEvent` is running whose own descriptor is not registered any more. -/
def EpollConfig.inUnregistered (c : EpollConfig) (es : List Event) : Bool :=
  c.control.frame.any fun p => p.fd ∉ registeredFds es

theorem mem_registerEvent {fds : Finset Fd} {fd : Fd} {m : Option Mask}
    (h : fd ∈ fds ↔ m.isSome = true) (e : Event) :
    fd ∈ registerEvent fds e ↔ (requestEvent fd m e).isSome = true := by
  cases e with
  | op o =>
    cases o with
    | registerFD x cb mask =>
      by_cases hx : x = fd
      · simp [registerEvent,requestEvent,request,hx]
      · simp [registerEvent,requestEvent,request,hx,Ne.symm hx,h]
    | unregisterFD x =>
      by_cases hx : x = fd
      · simp [registerEvent,requestEvent,request,hx]
      · simp [registerEvent,requestEvent,request,hx,Ne.symm hx,h]
    | handleEvent x mask => exact h
    | setFDReady x mask => exact h
    | setFDNotReady x => exact h
    | _ =>
      simp only [registerEvent,requestEvent,request,modifyRequest,h]
      split_ifs <;> simp
  | _ => exact h

theorem mem_registeredFds {es : List Event} {fd : Fd} :
    fd ∈ registeredFds es ↔ (requested es fd).isSome = true := by
  induction es using List.reverseRecOn with
  | nil => simp [registeredFds,requested]
  | append_singleton es e ih =>
    rw [registeredFds,requested,List.foldl_append,List.foldl_append]
    exact mem_registerEvent ih e

theorem Registry.WF.mem_cbMap {r : Registry} {frame : Option NodePtr} (hr : r.WF frame) {fd : Fd} :
    fd ∈ r.cbMap ↔ (r.mask fd).isSome = true ∨ ∃ p, frame = some p ∧ p.fd = fd := by
  rw [← Finmap.lookup_isSome]
  constructor
  · intro h
    obtain ⟨n,hn⟩ := Option.isSome_iff_exists.mp h
    cases hc : n.cb with
    | some cb => exact Or.inl (by simp [Registry.mask,hn,hc])
    | none => exact Or.inr ⟨_,(hr.inUse hn).mp (hr.tomb hn hc),rfl⟩
  · rintro (h | ⟨p,hp,rfl⟩)
    · cases hn : r.cbMap.lookup fd with
      | none => simp [Registry.mask,hn] at h
      | some n => rfl
    · obtain ⟨n,hn⟩ := hr.frameLive hp
      rw [(Registry.deref_eq_some.mp hn).1]
      rfl

/-- The size of the map: a descriptor that its own `OnEvent` has unregistered still
counts. -/
theorem card_cbMap {es : List Event} {c : EpollConfig} (h : machine.Run init es c) :
    c.server.cbMap.keys.card = (registeredFds es).card + if c.inUnregistered es then 1 else 0 := by
  obtain ⟨a,ha,hm⟩ := requested_of_run h
  have hkeys : ∀ fd, fd ∈ c.server.cbMap.keys ↔ fd ∈ registeredFds es ∨
      ∃ p, c.control.frame = some p ∧ p.fd = fd := by
    intro fd
    rw [Finmap.mem_keys,ha.refines.cbMap,ha.wf.mem_cbMap,hm fd,mem_registeredFds,← ha.control]
  cases hf : c.control.frame with
  | none =>
    have hsame : c.server.cbMap.keys = registeredFds es := by
      ext fd
      simp [hkeys fd,hf]
    simp [inUnregistered,hf,hsame]
  | some p =>
    have hinsert : c.server.cbMap.keys = insert p.fd (registeredFds es) := by
      ext fd
      simp only [hkeys fd,hf,Option.some.injEq,exists_eq_left',Finset.mem_insert]
      rw [or_comm,eq_comm]
    rw [hinsert,Finset.card_insert_eq_ite]
    by_cases hp : p.fd ∈ registeredFds es
    · simp [inUnregistered,hf,hp]
    · simp [inUnregistered,hf,hp]

/-- In any state of any run the count is right exactly inside an `OnEvent` that has
unregistered its own descriptor, whose node then stands in for the internal one. -/
theorem numFDsRegistered_counts_iff {es : List Event} {c : EpollConfig}
    (h : machine.Run init es c) :
    c.server.numFDsRegistered = .ok (registeredFds es).card ↔
      c.inUnregistered es = true ∧ (registeredFds es).card < 2^31 := by
  have hcard := card_cbMap h
  simp only [numFDsRegistered,hcard]
  generalize (registeredFds es).card = k
  cases c.inUnregistered es with
  | true =>
    have hto := toInt_of_nonneg (n:=(k : ℤ)) (by omega)
    have hk : ((k+1 : ℕ) : ℤ)-1 = k := by omega
    simp only [if_true,hk,true_and,if_pos (show (1 : ℤ) ≤ (k+1 : ℕ) by omega),Except.ok.injEq]
    constructor
    · intro he
      rcases lt_or_ge ((k : ℤ)%2^32) (2^31) with hlt | hge
      · have := (hto.1 hlt).1
        omega
      · have := hto.2 hge
        omega
    · intro hlt
      have := (hto.1 (by omega)).1
      omega
  | false =>
    simp only [Bool.false_eq_true,if_false,Nat.add_zero,false_and,iff_false]
    split_ifs with hone
    · -- one is taken off for a descriptor that is not there
      have hto := toInt_of_nonneg (n:=(k : ℤ)-1) (by omega)
      rw [Except.ok.injEq]
      rcases lt_or_ge (((k : ℤ)-1)%2^32) (2^31) with hlt | hge
      · have := (hto.1 hlt).2
        omega
      · have := hto.2 hge
        omega
    · simp

/-- A callback unregisters its own descriptor, while another one is registered. -/
theorem numFDsRegistered_counts_inside : ∃ c, machine.Run init
    [.op (.registerFD 3 1 epollIn),.op (.registerFD 4 2 epollIn),.op (.handleEvent 3 epollIn),
      .callReadyListCallbacks,.nextReady,.op (.unregisterFD 3)] c ∧
    c.server.numFDsRegistered = .ok 1 := by
  obtain ⟨c,hc,hin⟩ : ∃ c, machine.Run init
      [.op (.registerFD 3 1 epollIn),.op (.registerFD 4 2 epollIn),.op (.handleEvent 3 epollIn),
        .callReadyListCallbacks,.nextReady,.op (.unregisterFD 3)] c ∧
      c.inUnregistered [.op (.registerFD 3 1 epollIn),.op (.registerFD 4 2 epollIn),
        .op (.handleEvent 3 epollIn),.callReadyListCallbacks,.nextReady,.op (.unregisterFD 3)] =
        true := machine.exists_run_of_exec_any (by decide +kernel)
  exact ⟨c,hc,(numFDsRegistered_counts_iff hc).mpr ⟨hin,by decide⟩⟩

/-- One descriptor is registered and none is counted. -/
theorem numFDsRegistered_misses_one : ¬∀ es c, machine.Run init es c →
    c.server.numFDsRegistered = .ok (registeredFds es).card := by
  intro h
  obtain ⟨c,hc,hzero⟩ : ∃ c, machine.Run init [.op (.registerFD 3 1 epollIn)] c ∧
      decide (c.server.cbMap.keys.card = 1) = true :=
    machine.exists_run_of_exec_any (by decide +kernel)
  have hcount := h _ c hc
  rw [numFDsRegistered,of_decide_eq_true hzero] at hcount
  revert hcount
  decide

end CmuQuic
