import CmuQuic.ReadyList
import CmuQuic.Sockets

/-! Which runs of the server and of the client keep their netdp descriptors apart from
the kernel's and release every one of them. -/
namespace CmuQuic

/-- Every descriptor number has been obtained as often as it has been released, and
once more if it is the current one; the kernel has seen none of them. -/
structure SocketOwner.Balanced (o : SocketOwner) : Prop where
  netdpOnly : ∀ fd, 0 ≤ fd → .netdpSocket fd ∈ o.calls → ∀ f, .kernel f fd ∉ o.calls
  released : ∀ fd, 0 ≤ fd → o.calls.count (.netdpSocket fd) =
    o.calls.count (.netdpClose fd) + if o.fd = fd then 1 else 0

/-- The former socket is closed in the netdp stack and not in `cb_map_`. -/
def SocketOwner.Released (o o' : SocketOwner) : Prop :=
  0 ≤ o.fd → o'.calls.count (.netdpSocket o.fd) = o'.calls.count (.netdpClose o.fd) ∧
    o'.epoll.server.cbMap.lookup o.fd = none

def SetUp.addressInfo (u : SetUp) (family : AddressFamily) : ℤ :=
  if u.ipPktinfo = 0 ∧ family = .inet6 then u.ipv6RecvPktinfo else u.ipPktinfo

def SetUp.succeeds (u : SetUp) (family : AddressFamily) : Bool :=
  0 ≤ u.socket ∧ 0 ≤ u.addressInfo family ∧ u.soRcvbuf = 0 ∧ u.soSndbuf = 0 ∧ 0 ≤ u.bind

/-- The server has no socket when it listens or shuts down, and does not have to ask
for its port. -/
def QuicServer.isCareful (s : QuicServer) : QuicServer.Event → Bool
  | .listen family port u _ => s.owner.fd < 0 ∧ (port = 0 → u.succeeds family = false)
  | .shutdown _ => s.owner.fd < 0
  | _ => true

def QuicServer.careful : Machine QuicServer QuicServer.Event Abort where
  admits s e := s.admits e ∧ s.isCareful e = true
  step := QuicServer.step

/-- The client has no socket when it is initialized. -/
def QuicClient.isCareful (c : QuicClient) : QuicClient.Event → Bool
  | .initializeClient _ _ => c.owner.fd < 0
  | _ => true

def QuicClient.careful : Machine QuicClient QuicClient.Event Abort where
  admits c e := c.admits e ∧ c.isCareful e = true
  step := QuicClient.step

namespace SocketOwner

/-- The invariant: only a missing descriptor ever goes to the kernel. -/
structure Accounts (o : SocketOwner) : Prop where
  negative : ∀ f fd, .kernel f fd ∈ o.calls → fd < 0
  balance : ∀ fd, 0 ≤ fd → o.calls.count (.netdpSocket fd) =
    o.calls.count (.netdpClose fd) + if o.fd = fd then 1 else 0
  sound : o.epoll.Sound

def Kept (o o' : SocketOwner) : Prop :=
  o'.fd = o.fd ∧ o'.epoll = o.epoll ∧
    ∃ cs, o'.calls = o.calls ++ cs ∧ ∀ c ∈ cs, ∃ f fd, c = .netdp f fd

variable {o o' o'' : SocketOwner}

theorem Kept.refl (o : SocketOwner) : Kept o o := ⟨rfl,rfl,[],by simp,by simp⟩

theorem Kept.trans (h : Kept o o') (h' : Kept o' o'') : Kept o o'' := by
  obtain ⟨hfd,hep,cs,hcs,hn⟩ := h
  obtain ⟨hfd',hep',cs',hcs',hn'⟩ := h'
  refine ⟨hfd'.trans hfd,hep'.trans hep,cs ++ cs',by rw [hcs',hcs,List.append_assoc],fun c hc => ?_⟩
  exact (List.mem_append.mp hc).elim (hn c) (hn' c)

theorem kept_log (o : SocketOwner) (f : NetdpFunction) (fd : Fd) : Kept o (o.log (.netdp f fd)) :=
  ⟨rfl,rfl,[.netdp f fd],rfl,fun _ hc => ⟨f,fd,List.mem_singleton.mp hc⟩⟩

theorem kept_setsockopt (o : SocketOwner) : Kept o o.setsockopt := kept_log o _ _

theorem kept_setGetAddressInfo (o : SocketOwner) (u : SetUp) (family : AddressFamily) :
    Kept o (o.setGetAddressInfo u family).1 := by
  unfold setGetAddressInfo
  split_ifs
  · exact (kept_setsockopt o).trans (kept_setsockopt _)
  · exact kept_setsockopt o

theorem setGetAddressInfo_snd (o : SocketOwner) (u : SetUp) (family : AddressFamily) :
    (o.setGetAddressInfo u family).2 = u.addressInfo family := by
  unfold setGetAddressInfo SetUp.addressInfo
  split_ifs <;> rfl

theorem kept_setOverflow (o : SocketOwner) (u : SetUp) : Kept o (o.setOverflow u) := by
  unfold setOverflow
  split_ifs
  · exact kept_setsockopt o
  · exact kept_setsockopt o

theorem kept_setBufferSizes (o : SocketOwner) (u : SetUp) : Kept o (o.setBufferSizes u).1 := by
  unfold setBufferSizes
  split_ifs
  · exact kept_setsockopt o
  · exact (kept_setsockopt o).trans (kept_setsockopt _)

theorem kept_bind (o : SocketOwner) (u : SetUp) : Kept o (o.bind u).1 := kept_log o _ _

theorem kept_writePackets (o : SocketOwner) (n : ℕ) : Kept o (o.writePackets n) := by
  unfold writePackets
  split
  · exact .refl o
  · exact ⟨rfl,rfl,_,rfl,fun _ hc => ⟨_,_,List.eq_of_mem_replicate hc⟩⟩

theorem closed_ne {fd : Fd} (h : 0 ≤ fd) : (-1 : Fd) ≠ fd := by
  rintro rfl
  exact absurd h (by decide)

namespace Accounts

theorem kept (h : Accounts o) (hk : Kept o o') : Accounts o' := by
  obtain ⟨hfd,hep,cs,hcs,hn⟩ := hk
  have hcount : ∀ c : SocketCall, (∀ f fd, c ≠ .netdp f fd) → cs.count c = 0 := by
    intro c hc
    refine List.count_eq_zero.mpr fun hmem => ?_
    obtain ⟨f,fd,he⟩ := hn c hmem
    exact hc f fd he
  refine ⟨fun f fd hmem => ?_,fun fd h₀ => ?_,hep ▸ h.sound⟩
  · rw [hcs] at hmem
    rcases List.mem_append.mp hmem with hmem | hmem
    · exact h.negative f fd hmem
    · obtain ⟨_,_,he⟩ := hn _ hmem
      cases he
  · rw [hcs,List.count_append,List.count_append,hcount _ (by simp),hcount _ (by simp),hfd]
    exact h.balance fd h₀

theorem createSocket (h : Accounts o) (hfd : o.fd < 0) (u : SetUp) : Accounts (o.createSocket u) := by
  refine ⟨fun f fd hmem => ?_,fun fd h₀ => ?_,h.sound⟩
  · rcases List.mem_append.mp hmem with hmem | hmem
    · exact h.negative f fd hmem
    · simp at hmem
  · have hold := h.balance fd h₀
    have hne : o.fd ≠ fd := (hfd.trans_le h₀).ne
    rw [if_neg hne] at hold
    simp only [SocketOwner.createSocket,log,List.count_append,hold]
    by_cases he : u.socket = fd
    · simp [he]
    · simp [he]

/-- A descriptor operation of the event loop never aborts, so that it always leads to
the next state. -/
theorem epollStep (h : Accounts o) {e : EpollConfig.Event} {c : EpollConfig}
    (he : EpollConfig.machine.admits o.epoll e) (hc : EpollConfig.machine.step o.epoll e = .ok c) :
    Accounts { o with epoll := c } :=
  ⟨h.negative,h.balance,EpollConfig.sound_inductive.step h.sound he hc⟩

theorem writer (h : Accounts o) (fd : Option Fd) : Accounts { o with writerFd := fd } :=
  ⟨h.negative,h.balance,h.sound⟩

theorem balanced (h : Accounts o) : Balanced o where
  netdpOnly fd h₀ _ f hmem := not_lt.mpr h₀ (h.negative f fd hmem)
  released := h.balance

end Accounts

theorem lookup_unregister {c c' : EpollConfig} (hc : c.Sound) (hi : c.control = .idle) {fd : Fd}
    (h : EpollConfig.machine.step c (.op (.unregisterFD fd)) = .ok c') :
    c'.server.cbMap.lookup fd = none := by
  obtain ⟨a,ha⟩ := hc
  obtain ⟨c₁,h₁,ha'⟩ := ha.step (e:=.op (.unregisterFD fd))
    (by simp [EpollConfig.machine,EpollConfig.admits,hi])
  obtain rfl : c₁ = c' := Except.ok.inj (h₁.symm.trans h)
  rw [ha'.refines.cbMap]
  have hwf := ha.wf
  rw [show a.control.frame = none by rw [← ha.control,hi]; rfl] at hwf
  show (a.registry.unregister fd).cbMap.lookup fd = none
  unfold Registry.unregister Registry.onRegistered
  cases hn : a.registry.cbMap.lookup fd with
  | none => exact hn
  | some n =>
    have huse : n.inUse = false := by
      rw [← Bool.not_eq_true,hwf.inUse hn]
      simp
    have hcb : n.cb ≠ none := fun hnone => by simp [hwf.tomb hn hnone] at huse
    simp only [hcb,huse,if_false,Bool.false_eq_true]
    simp [Registry.drop]

theorem epollOp_ok {op : EpollServer.Op} (h : o.epollOp op = .ok o') :
    ∃ c, EpollConfig.machine.step o.epoll (.op op) = .ok c ∧ o' = { o with epoll := c } := by
  obtain ⟨c,hc,h⟩ := except_bind_eq_ok h
  exact ⟨c,hc,(Except.ok.inj h).symm⟩

theorem Accounts.epollOp (h : Accounts o) (hi : o.epoll.control = .idle) {op : EpollServer.Op}
    (ho : o.epollOp op = .ok o') : Accounts o' := by
  obtain ⟨c,hc,rfl⟩ := epollOp_ok ho
  exact h.epollStep (e:=.op op) (by simp [EpollConfig.machine,EpollConfig.admits,hi]) hc

end SocketOwner

namespace QuicServer
open SocketOwner

variable {s s' : QuicServer}

theorem setUpSocket_kept (o : SocketOwner) (family : AddressFamily) (u : SetUp) :
    Kept (o.createSocket u) (setUpSocket o family u).1 := by
  have hk₁ := kept_setGetAddressInfo (o.createSocket u) u family
  have hk₂ := hk₁.trans (kept_setOverflow _ u)
  have hk₃ := hk₂.trans (kept_setBufferSizes _ u)
  have hk₄ := hk₃.trans (kept_bind _ u)
  unfold setUpSocket
  dsimp only
  split_ifs
  · exact .refl _
  · exact hk₁
  · split
    · rename_i h
      rw [h] at hk₃
      exact hk₃
    · rename_i h
      rw [h] at hk₄
      exact hk₄

theorem setUpSocket_succeeds (o : SocketOwner) (family : AddressFamily) (u : SetUp) :
    (setUpSocket o family u).2 = u.succeeds family := by
  have hbuf : ∀ o, (SocketOwner.setBufferSizes o u).2 = decide (u.soRcvbuf = 0 ∧ u.soSndbuf = 0) := by
    intro o
    unfold setBufferSizes
    split_ifs with h
    · simp [h]
    · simp [not_not.mp h]
  unfold setUpSocket SetUp.succeeds
  dsimp only
  rw [setGetAddressInfo_snd]
  split_ifs with h₁ h₂
  · simp [not_le.mpr h₁]
  · simp [not_le.mpr h₂]
  · split
    · rename_i h
      have hno := hbuf (((o.createSocket u).setGetAddressInfo u family).1.setOverflow u)
      rw [h] at hno
      have hno : ¬(u.soRcvbuf = 0 ∧ u.soSndbuf = 0) := by simpa using hno.symm
      simp only [eq_comm (a:=false),decide_eq_false_iff_not]
      tauto
    · rename_i h
      have hyes := hbuf (((o.createSocket u).setGetAddressInfo u family).1.setOverflow u)
      rw [h] at hyes
      have hyes : u.soRcvbuf = 0 ∧ u.soSndbuf = 0 := by simpa using hyes.symm
      simp [SocketOwner.bind,not_lt.mp h₁,not_lt.mp h₂,hyes]

theorem listen_accounts (h : Accounts s.owner) (hi : s.owner.epoll.control = .idle)
    {family : AddressFamily} {port : ℕ} {u : SetUp} {selfPort : Option ℕ} {b : Bool}
    (hfd : s.owner.fd < 0) (hport : port = 0 → u.succeeds family = false)
    (hs : s.listen family port u selfPort = .ok (s',b)) : Accounts s'.owner := by
  have hk := setUpSocket_kept s.owner family u
  have hsucc := setUpSocket_succeeds s.owner family u
  have ha := (h.createSocket hfd u).kept hk
  have hidle : (setUpSocket s.owner family u).1.epoll.control = .idle := by
    rw [hk.2.1]
    exact hi
  unfold listen at hs
  generalize setUpSocket s.owner family u = r at hs ha hidle hsucc
  obtain ⟨o,ok⟩ := r
  cases ok with
  | false =>
    cases hs
    exact ha
  | true =>
    have hne : port ≠ 0 := fun h₀ => by simp [hport h₀] at hsucc
    simp only [findPort,if_neg hne] at hs
    obtain ⟨o',ho,hs⟩ := except_bind_eq_ok hs
    cases hs
    exact (ha.epollOp hidle ho).writer _

theorem shutdown_accounts (h : Accounts s.owner) {n : ℕ} (hfd : s.owner.fd < 0)
    (hs : s.shutdown n = .ok s') : Accounts s'.owner := by
  unfold shutdown at hs
  split at hs
  · cases hs
  · cases hs
    have hk := kept_writePackets s.owner n
    have ho := h.kept hk
    generalize s.owner.writePackets n = o at hk ho
    have hneg : o.fd < 0 := hk.1 ▸ hfd
    refine ⟨fun f fd hmem => ?_,fun fd h₀ => ?_,ho.sound⟩
    · rcases List.mem_append.mp hmem with hmem | hmem
      · exact ho.negative f fd hmem
      · obtain ⟨rfl,rfl⟩ : f = .close ∧ fd = o.fd := by simpa using hmem
        exact hneg
    · have hold := ho.balance fd h₀
      rw [if_neg (hneg.trans_le h₀).ne] at hold
      have hne := closed_ne h₀
      simpa [log,List.count_append,hne] using hold

theorem step_accounts (h : Accounts s.owner) {e : Event} (he : careful.admits s e)
    (hs : careful.step s e = .ok s') : Accounts s'.owner := by
  obtain ⟨he,hmeets⟩ := he
  cases e with
  | listen family port u selfPort =>
    obtain ⟨⟨s₁,b⟩,h₁,hs⟩ := except_bind_eq_ok hs
    cases hs
    have hmeets := of_decide_eq_true hmeets
    exact listen_accounts h he hmeets.1 hmeets.2 h₁
  | waitForEvents e =>
    obtain ⟨c,hc,hs⟩ := except_bind_eq_ok hs
    cases hs
    exact h.epollStep he hc
  | readPacket =>
    cases hs
    exact h.kept (kept_log _ _ _)
  | writePacket =>
    cases hs
    exact h.kept (kept_writePackets _ _)
  | shutdown n => exact shutdown_accounts h (of_decide_eq_true hmeets) hs

end QuicServer

namespace QuicClient
open SocketOwner

variable {c c' : QuicClient}

theorem createUDPSocket_kept (o : SocketOwner) (family : AddressFamily) (u : SetUp) :
    Kept (o.createSocket u) (createUDPSocket o family u).1 := by
  have hk₁ := kept_setOverflow (o.createSocket u) u
  have hk₂ := hk₁.trans (kept_setBufferSizes _ u)
  have hk₃ := hk₂.trans (kept_setGetAddressInfo _ u family)
  have hk₄ := hk₃.trans (kept_bind _ u)
  unfold createUDPSocket
  dsimp only
  split_ifs
  · exact .refl _
  · generalize ((o.createSocket u).setOverflow u).setBufferSizes u = r at hk₂ hk₃ hk₄
    obtain ⟨o₁,ok⟩ := r
    cases ok with
    | false => exact hk₂
    | true =>
      dsimp only at hk₃ hk₄ ⊢
      split_ifs
      · exact hk₃
      · generalize (o₁.setGetAddressInfo u family).1.bind u = r at hk₄
        obtain ⟨o₂,ok⟩ := r
        cases ok with
        | false => exact hk₄
        | true => exact hk₄.trans (kept_log _ _ _)

theorem initializeClient_accounts (h : Accounts c.owner) (hi : c.owner.epoll.control = .idle)
    {family : AddressFamily} {u : SetUp} {b : Bool} (hfd : c.owner.fd < 0)
    (hs : c.initializeClient family u = .ok (c',b)) : Accounts c'.owner := by
  have hk := createUDPSocket_kept c.owner family u
  have ha := (h.createSocket hfd u).kept hk
  have hidle : (createUDPSocket c.owner family u).1.epoll.control = .idle := by
    rw [hk.2.1]
    exact hi
  unfold initializeClient at hs
  split_ifs at hs
  generalize createUDPSocket c.owner family u = r at hs ha hidle
  obtain ⟨o,ok⟩ := r
  cases ok with
  | false =>
    cases hs
    exact ha
  | true =>
    obtain ⟨o',ho,hs⟩ := except_bind_eq_ok hs
    cases hs
    exact ha.epollOp hidle ho

theorem disconnect_accounts (h : Accounts c.owner) (hi : c.owner.epoll.control = .idle) {n : ℕ}
    (hs : c.disconnect n = .ok c') : Accounts c'.owner ∧ Released c.owner c'.owner := by
  have hk := kept_writePackets c.owner n
  have ho := h.kept hk
  unfold disconnect at hs
  dsimp only at hs
  generalize c.owner.writePackets n = o at hk ho hs
  split_ifs at hs with hfd
  · obtain ⟨o',ho',hs⟩ := except_bind_eq_ok hs
    obtain ⟨e,he,rfl⟩ := epollOp_ok ho'
    have hidle : o.epoll.control = .idle := by rw [hk.2.1]; exact hi
    have hsound := (ho.epollOp hidle ho').sound
    have hgone := lookup_unregister ho.sound hidle he
    cases hs
    have hbalance : ∀ fd, 0 ≤ fd → (o.calls ++ [SocketCall.netdpClose o.fd]).count (.netdpSocket fd) =
        (o.calls ++ [SocketCall.netdpClose o.fd]).count (.netdpClose fd) := by
      intro fd h₀
      rw [List.count_append,List.count_append,ho.balance fd h₀]
      by_cases hf : o.fd = fd
      · simp [hf]
      · simp [hf]
    refine ⟨⟨fun f fd hmem => ?_,fun fd h₀ => ?_,hsound⟩,fun h₀ => ⟨hbalance _ h₀,hk.1 ▸ hgone⟩⟩
    · rcases List.mem_append.mp hmem with hmem | hmem
      · exact ho.negative f fd hmem
      · simp at hmem
    · have hne := closed_ne h₀
      simp only [if_neg hne]
      exact hbalance fd h₀
  · cases hs
    refine ⟨ho,fun h₀ => absurd ?_ hfd⟩
    rw [hk.1]
    exact lt_of_lt_of_le (by decide) h₀

theorem step_accounts (h : Accounts c.owner) {e : Event} (he : careful.admits c e)
    (hs : careful.step c e = .ok c') : Accounts c'.owner := by
  obtain ⟨he,hmeets⟩ := he
  cases e with
  | initializeClient family u =>
    obtain ⟨⟨c₁,b⟩,h₁,hs⟩ := except_bind_eq_ok hs
    cases hs
    exact initializeClient_accounts h he.1 (of_decide_eq_true hmeets) h₁
  | connect =>
    cases hs
    exact h.writer _
  | waitForEvents e =>
    obtain ⟨e',he',hs⟩ := except_bind_eq_ok hs
    cases hs
    exact h.epollStep he he'
  | readPacket =>
    cases hs
    exact h.kept (kept_log _ _ _)
  | writePacket =>
    cases hs
    exact h.kept (kept_writePackets _ _)
  | disconnect n => exact (disconnect_accounts h he hs).1

end QuicClient

open SocketOwner

theorem SocketOwner.Accounts.initial (self : CB) {e : EpollConfig} (he : e.Sound) :
    Accounts (init self e) where
  negative f fd h := by simp [init] at h
  balance fd h₀ := by
    have hne := closed_ne h₀
    simp [init,hne]
  sound := he

/-- A server and a client, the client on an event loop in any state that the loop can
reach: in every careful run both account for their sockets, and what a `Shutdown` or a
`Disconnect` leaves behind is closed and not registered. -/
theorem sockets_of_careful_runs {self self' : CB} {es : List QuicServer.Event} {s : QuicServer}
    (hs : QuicServer.careful.Run (.init self) es s) {es₀ : List EpollConfig.Event} {e : EpollConfig}
    (he : EpollConfig.machine.Run .init es₀ e) {es' : List QuicClient.Event} {c : QuicClient}
    (hc : QuicClient.careful.Run (.init self' e) es' c) :
    (s.owner.Balanced ∧ ∀ n s', QuicServer.careful.admits s (.shutdown n) →
      QuicServer.careful.step s (.shutdown n) = .ok s' → s.owner.Released s'.owner) ∧
    (c.owner.Balanced ∧ ∀ n c', QuicClient.careful.admits c (.disconnect n) →
      QuicClient.careful.step c (.disconnect n) = .ok c' → c.owner.Released c'.owner) := by
  have hserver : Accounts s.owner := hs.invariant (P:=fun s => Accounts s.owner)
    (fun h he hs => QuicServer.step_accounts h he hs) (.initial self ⟨_,.initial⟩)
  have hsound := EpollConfig.sound_inductive.run he ⟨_,.initial⟩
  have hclient : Accounts c.owner := hc.invariant (P:=fun c => Accounts c.owner)
    (fun h he hs => QuicClient.step_accounts h he hs) (.initial self' hsound)
  refine ⟨⟨hserver.balanced,fun n s' hadm _ h₀ => ?_⟩,hclient.balanced,fun n c' hadm hstep => ?_⟩
  · exact absurd (of_decide_eq_true hadm.2) (not_lt.mpr h₀)
  · exact (QuicClient.disconnect_accounts hclient hadm.1 hstep).2

instance (s : QuicServer) (e : QuicServer.Event) : Decidable (QuicServer.careful.admits s e) :=
  inferInstanceAs (Decidable (s.admits e ∧ s.isCareful e = true))

instance (c : QuicClient) (e : QuicClient.Event) : Decidable (QuicClient.careful.admits c e) :=
  inferInstanceAs (Decidable (c.admits e ∧ c.isCareful e = true))

/-- A server that listens and is served, and a client that fails to bind, disconnects
and connects again. -/
theorem sockets_of_served_runs : ∃ s c,
    QuicServer.careful.Run (.init 1) [.listen .inet6 443 ⟨5,0,0,-1,0,0,0⟩ none,
      .waitForEvents (.op (.handleEvent 5 epollIn)),.waitForEvents .callReadyListCallbacks,
      .waitForEvents .nextReady,.readPacket,.writePacket,.waitForEvents (.onEventReturns 0)] s ∧
    QuicClient.careful.Run (.init 2 .init) [.initializeClient .inet ⟨7,0,0,0,0,0,-1⟩,.disconnect 0,
      .initializeClient .inet ⟨7,0,0,0,0,0,0⟩,.connect,.writePacket,.disconnect 1] c ∧
    s.owner.Balanced ∧ c.owner.Balanced :=
  let ⟨s,hs⟩ := QuicServer.careful.exists_run_of_exec (by decide +kernel)
  let ⟨c,hc⟩ := QuicClient.careful.exists_run_of_exec (by decide +kernel)
  have h := sockets_of_careful_runs hs (.nil _) hc
  ⟨s,c,hs,hc,h.1.1,h.2.1⟩

/-- A server that listens on a port and shuts down gives its netdp descriptor to the
kernel's `close`, and neither releases nor unregisters it; a server on port 0 gives it
to the kernel's `getsockname`; a client that is initialized again after a failed `bind`
loses its first descriptor. -/
theorem sockets_not_balanced :
    (∃ s s', QuicServer.machine.Run (.init 1) [.listen .inet 6121 ⟨5,0,0,0,0,0,0⟩ none] s ∧
      QuicServer.machine.Run s [.shutdown 0] s' ∧ ¬s'.owner.Balanced ∧ ¬s.owner.Released s'.owner) ∧
    (∃ s, QuicServer.machine.Run (.init 1) [.listen .inet 0 ⟨5,0,0,0,0,0,0⟩ none] s ∧
      ¬s.owner.Balanced) ∧
    (∃ c, QuicClient.machine.Run (.init 2 .init) [.initializeClient .inet ⟨7,0,0,0,0,0,-1⟩,
      .initializeClient .inet ⟨8,0,0,0,0,0,0⟩] c ∧ ¬c.owner.Balanced) := by
  have hkernel : ∀ {o : SocketOwner} {f}, decide (.netdpSocket 5 ∈ o.calls ∧ .kernel f 5 ∈ o.calls) = true →
      ¬o.Balanced := by
    intro o f h hb
    have h := of_decide_eq_true h
    exact hb.netdpOnly 5 (by decide) h.1 f h.2
  refine ⟨?_,?_,?_⟩
  · obtain ⟨s,hs,s',hs',hcalls⟩ : ∃ s,
        QuicServer.machine.Run (.init 1) [.listen .inet 6121 ⟨5,0,0,0,0,0,0⟩ none] s ∧
        ∃ s', QuicServer.machine.Run s [.shutdown 0] s' ∧ decide (s.owner.fd = 5 ∧
          s'.owner.calls.count (.netdpSocket 5) = 1 ∧ s'.owner.calls.count (.netdpClose 5) = 0 ∧
          .netdpSocket 5 ∈ s'.owner.calls ∧ .kernel .close 5 ∈ s'.owner.calls) = true :=
      ⟨_,.single rfl rfl,QuicServer.machine.exists_run_of_exec_any (by decide +kernel)⟩
    obtain ⟨hfd,hobtained,hclosed,hcalls⟩ := of_decide_eq_true hcalls
    refine ⟨s,s',hs,hs',hkernel (decide_eq_true hcalls),fun hr => ?_⟩
    have heq := (hr (by rw [hfd]; decide)).1
    rw [hfd,hobtained,hclosed] at heq
    exact absurd heq (by decide)
  · obtain ⟨s,hs,hcalls⟩ : ∃ s,
        QuicServer.machine.Run (.init 1) [.listen .inet 0 ⟨5,0,0,0,0,0,0⟩ none] s ∧
        decide (.netdpSocket 5 ∈ s.owner.calls ∧ .kernel .getsockname 5 ∈ s.owner.calls) = true :=
      QuicServer.machine.exists_run_of_exec_any (by decide +kernel)
    exact ⟨s,hs,hkernel hcalls⟩
  · obtain ⟨c,hc,hcalls⟩ : ∃ c,
        QuicClient.machine.Run (.init 2 .init) [.initializeClient .inet ⟨7,0,0,0,0,0,-1⟩,
          .initializeClient .inet ⟨8,0,0,0,0,0,0⟩] c ∧
        decide (c.owner.fd = 8 ∧ c.owner.calls.count (.netdpSocket 7) = 1 ∧
          c.owner.calls.count (.netdpClose 7) = 0) = true :=
      QuicClient.machine.exists_run_of_exec_any (by decide +kernel)
    obtain ⟨hfd,hobtained,hclosed⟩ := of_decide_eq_true hcalls
    refine ⟨c,hc,fun hb => ?_⟩
    have heq := hb.released 7 (by decide)
    rw [hfd,hobtained,hclosed] at heq
    exact absurd heq (by decide)

end CmuQuic
