import CmuQuic.ReadyList

/-! Which event bits reach an `OnEvent`: those that were supplied for the descriptor
since its callback was installed and since it was last set not ready, as long as no
node returns to the ready list with bits of an earlier time. -/
namespace CmuQuic
open IntrusiveList EpollServer

def Within (a b : Mask) : Prop := a &&& ~~~b = 0#32

instance (a b : Mask) : Decidable (Within a b) := inferInstanceAs (Decidable (_ = _))

theorem within_iff {a b : Mask} :
    Within a b ↔ ∀ i, a.getLsbD i = true → b.getLsbD i = true := by
  constructor
  · intro h i hi
    have hbit := congrArg (fun m => m.getLsbD i) h
    have hlt := BitVec.lt_of_getLsbD hi
    simpa [hi,hlt] using hbit
  · intro h
    apply BitVec.eq_of_getLsbD_eq
    intro i hlt
    cases hi : a.getLsbD i with
    | false => simp [hi]
    | true => simp [h i hi]

theorem within_or {a b c : Mask} : Within (a ||| b) c ↔ Within a c ∧ Within b c := by
  simp only [within_iff,BitVec.getLsbD_or,Bool.or_eq_true]
  exact ⟨fun h => ⟨fun i hi => h i (Or.inl hi),fun i hi => h i (Or.inr hi)⟩,
    fun h i hi => hi.elim (h.1 i) (h.2 i)⟩

theorem Within.trans {a b c : Mask} (h₁ : Within a b) (h₂ : Within b c) : Within a c :=
  within_iff.mpr fun i hi => within_iff.mp h₂ i (within_iff.mp h₁ i hi)

theorem within_or_left (a b : Mask) : Within a (a ||| b) := within_iff.mpr fun i hi => by simp [hi]

theorem within_or_right (a b : Mask) : Within b (a ||| b) := within_iff.mpr fun i hi => by simp [hi]

/-- What a history means for one descriptor: the callback that the latest `RegisterFD`
installed, the callback of the latest `OnEvent`, and the bits that were supplied
since that `RegisterFD` and since the latest `SetFDNotReady`. -/
structure Supply where
  installed : Option CB
  calling : Option CB
  bits : Mask
  deriving DecidableEq

/-- An `out_ready_mask` supplies bits only to the callback that left it behind. -/
def Supply.observe (fd : Fd) (x : Supply) : Happened → Supply
  | .did (.registerFD g cb _) => if g = fd then { x with installed := some cb, bits := 0 } else x
  | .did (.setFDNotReady g) => if g = fd then { x with bits := 0 } else x
  | .did (.handleEvent g mask) => if g = fd then { x with bits := x.bits ||| mask } else x
  | .did (.setFDReady g mask) => if g = fd then { x with bits := x.bits ||| mask } else x
  | .did _ => x
  | .called call => if call.fd = fd then { x with calling := some call.cb } else x
  | .returned g mask =>
    if g = fd ∧ x.calling = x.installed then { x with bits := x.bits ||| mask } else x

def supply (trace : List Happened) (fd : Fd) : Supply :=
  trace.foldl (Supply.observe fd) ⟨none,none,0⟩

@[simp] theorem supply_append (trace : List Happened) (x : Happened) (fd : Fd) :
    supply (trace ++ [x]) fd = (supply trace fd).observe fd x := by simp [supply]

/-- Every `OnEvent` is invoked on the installed callback, with bits supplied to it. -/
def NoStaleBits (trace : List Happened) : Prop :=
  ∀ front call back, trace = front ++ Happened.called call :: back →
    (supply front call.fd).installed = some call.cb ∧
      Within call.inEvents (supply front call.fd).bits

namespace EpollConfig

/-- A step does not put a node that is on neither list back on the ready list while
the mask that the step does not write holds other bits than the new one, and no
`OnEvent` asks to be called again after another callback took its place. -/
def isClean (c : EpollConfig) : Event → Bool
  | .op (.handleEvent fd mask) => (c.server.cbMap.lookup fd).all fun n =>
    n.cb = none ∨ c.server.links.lePrev ⟨fd,n.serial⟩ ≠ none ∨ Within n.eventsToFake mask
  | .op (.setFDReady fd mask) => (c.server.cbMap.lookup fd).all fun n =>
    n.cb = none ∨ c.server.links.lePrev ⟨fd,n.serial⟩ ≠ none ∨ Within n.eventsAsserted mask
  | .onEventReturns mask => c.control.frame.all fun p => (c.server.deref p).all fun n =>
    n.cb = none ∨ mask = 0 ∨ n.cb = (supply c.trace p.fd).calling ∧
      (c.server.links.lePrev p ≠ none ∨ Within n.eventsAsserted mask)
  | _ => true

def clean : Machine EpollConfig Event Abort :=
  ⟨fun c e => machine.admits c e ∧ c.isClean e = true,machine.step⟩

instance (c : EpollConfig) (e : Event) : Decidable (clean.admits c e) :=
  inferInstanceAs (Decidable (machine.admits c e ∧ c.isClean e = true))

end EpollConfig

namespace Registry

variable {r r' : Registry} {frame : Option NodePtr} {trace : List Happened} {x : Happened} {fd : Fd}

/-- What the nodes on the lists owe to the history. -/
structure Fresh (trace : List Happened) (r : Registry) : Prop where
  installed : ∀ fd n cb, r.cbMap.lookup fd = some n → n.cb = some cb →
    (supply trace fd).installed = some cb
  bits : ∀ h p n, p ∈ r.lists h → r.deref p = some n →
    Within (n.eventsAsserted ||| n.eventsToFake) (supply trace p.fd).bits

theorem Fresh.change (h : Fresh trace r) (fd : Fd)
    (hx : ∀ y, y ≠ fd → supply (trace ++ [x]) y = supply trace y)
    (hother : ∀ y, y ≠ fd → r'.cbMap.lookup y = r.cbMap.lookup y)
    (hlists : ∀ k p, p ∈ r'.lists k → p.fd = fd ∨ ∃ j, p ∈ r.lists j)
    (hinstalled : ∀ n cb, r'.cbMap.lookup fd = some n → n.cb = some cb →
      (supply (trace ++ [x]) fd).installed = some cb)
    (hbits : ∀ k p n, p ∈ r'.lists k → p.fd = fd → r'.cbMap.lookup fd = some n →
      n.serial = p.serial → Within (n.eventsAsserted ||| n.eventsToFake) (supply (trace ++ [x]) fd).bits) :
    Fresh (trace ++ [x]) r' := by
  constructor
  · intro y n cb hn hc
    by_cases hy : y = fd
    · subst hy
      exact hinstalled n cb hn hc
    · rw [hx y hy]
      exact h.installed y n cb (hother y hy ▸ hn) hc
  · intro k p n hp hd
    obtain ⟨hl,hs⟩ := deref_eq_some.mp hd
    by_cases hy : p.fd = fd
    · rw [hy] at hl ⊢
      exact hbits k p n hp hy hl hs
    · obtain ⟨j,hj⟩ := (hlists k p hp).resolve_left hy
      rw [hx p.fd hy]
      exact h.bits j p n hj (deref_eq_some.mpr ⟨hother p.fd hy ▸ hl,hs⟩)

theorem Fresh.mono {trace' : List Happened} (h : Fresh trace r)
    (hi : ∀ y, (supply trace' y).installed = (supply trace y).installed)
    (hb : ∀ y, Within (supply trace y).bits (supply trace' y).bits) : Fresh trace' r := by
  constructor
  · intro y n cb hn hc
    rw [hi y]
    exact h.installed y n cb hn hc
  · intro k p n hp hd
    exact (h.bits k p n hp hd).trans (hb p.fd)

theorem Fresh.edit (h : Fresh trace r) (fd : Fd) {f : CBAndEventMask → CBAndEventMask}
    (hs : ∀ n, (f n).serial = n.serial) (hc : ∀ n, (f n).cb = n.cb)
    (hm : ∀ n, (f n).eventsAsserted ||| (f n).eventsToFake = n.eventsAsserted ||| n.eventsToFake) :
    Fresh trace (r.edit fd f) := by
  constructor
  · intro y n cb hn hcb
    rw [lookup_edit] at hn
    split_ifs at hn with hy
    · subst hy
      obtain ⟨m,hl,rfl⟩ := Option.map_eq_some_iff.mp hn
      exact h.installed y m cb hl (hc m ▸ hcb)
    · exact h.installed y n cb hn hcb
  · intro k p n hp hd
    rw [lists_edit] at hp
    rw [deref_edit hs] at hd
    split_ifs at hd
    · obtain ⟨m,hl,rfl⟩ := Option.map_eq_some_iff.mp hd
      rw [hm]
      exact h.bits k p m hp hl
    · exact h.bits k p n hp hd

theorem Fresh.withdraw (h : Fresh trace r) (fd : Fd)
    (hx : ∀ y, y ≠ fd → supply (trace ++ [x]) y = supply trace y)
    (hother : ∀ y, y ≠ fd → r'.cbMap.lookup y = r.cbMap.lookup y)
    (hlists : ∀ k p, p ∈ r'.lists k → p.fd ≠ fd ∧ ∃ j, p ∈ r.lists j)
    (hinstalled : ∀ n cb, r'.cbMap.lookup fd = some n → n.cb = some cb →
      (supply (trace ++ [x]) fd).installed = some cb) : Fresh (trace ++ [x]) r' :=
  h.change fd hx hother (fun k p hp => Or.inr (hlists k p hp).2) hinstalled
    fun k p _ hp hfd => absurd hfd (hlists k p hp).1

theorem WF.fd_ne_of_mem (hr : r.WF frame) (hn : ∀ n, r.cbMap.lookup fd = some n → n.cb = none)
    {h : ListHead} {p : NodePtr} (hp : p ∈ r.lists h) : p.fd ≠ fd := by
  rintro rfl
  obtain ⟨m,hd,hc⟩ := hr.member hp
  exact hc (hn m (deref_eq_some.mp hd).1)

theorem Fresh.unlinked (hr : r.WF frame) (h : Fresh trace r) {n : CBAndEventMask}
    (hn : r.cbMap.lookup fd = some n) (hlists : r'.lists = (r.unlink ⟨fd,n.serial⟩).lists)
    (hx : ∀ y, y ≠ fd → supply (trace ++ [x]) y = supply trace y)
    (hother : ∀ y, y ≠ fd → r'.cbMap.lookup y = r.cbMap.lookup y)
    (hinstalled : ∀ n cb, r'.cbMap.lookup fd = some n → n.cb = some cb →
      (supply (trace ++ [x]) fd).installed = some cb) : Fresh (trace ++ [x]) r' := by
  refine h.withdraw fd hx hother (fun k p hp => ?_) hinstalled
  rw [hlists] at hp
  obtain ⟨hne,hold⟩ := (mem_unlink hr.separate).mp hp
  obtain ⟨m,hd,_⟩ := hr.member hold
  obtain ⟨hl,hs⟩ := deref_eq_some.mp hd
  refine ⟨fun hfd => hne ?_,k,hold⟩
  rw [hfd,hn] at hl
  cases hl
  cases p
  simp_all

theorem Fresh.raise (h : Fresh trace r) {n : CBAndEventMask} {f : CBAndEventMask → CBAndEventMask}
    (hn : r.cbMap.lookup fd = some n) (hcb : (f n).cb = n.cb)
    (hx : ∀ y, y ≠ fd → supply (trace ++ [x]) y = supply trace y)
    (hi : (supply (trace ++ [x]) fd).installed = (supply trace fd).installed)
    (hbits : Within ((f n).eventsAsserted ||| (f n).eventsToFake) (supply (trace ++ [x]) fd).bits) :
    Fresh (trace ++ [x]) ((r.edit fd f).link ⟨fd,n.serial⟩) := by
  have hfd : ((r.edit fd f).link ⟨fd,n.serial⟩).cbMap.lookup fd = some (f n) := by
    rw [cbMap_link,lookup_edit,if_pos rfl,hn]
    rfl
  apply h.change fd hx
  · intro y hy
    rw [cbMap_link,lookup_edit,if_neg hy]
  · intro k p hp
    rcases mem_link.mp ⟨k,hp⟩ with rfl | ⟨j,hj⟩
    · exact Or.inl rfl
    · exact Or.inr ⟨j,by simpa using hj⟩
  · intro m cb hm hc
    rw [hfd] at hm
    cases hm
    rw [hi]
    exact h.installed fd n cb hn (hcb ▸ hc)
  · intro k p m _ _ hm _
    rw [hfd] at hm
    cases hm
    exact hbits

theorem Fresh.bits_of_mem (h : Fresh trace r) {n : CBAndEventMask}
    (hn : r.cbMap.lookup fd = some n) (hl : ∃ k, ⟨fd,n.serial⟩ ∈ r.lists k) (mask : Mask) :
    Within n.eventsAsserted ((supply trace fd).bits ||| mask) ∧
      Within n.eventsToFake ((supply trace fd).bits ||| mask) := by
  obtain ⟨k,hk⟩ := hl
  have hb := h.bits k _ n hk (deref_eq_some.mpr ⟨hn,rfl⟩)
  exact within_or.mp (hb.trans (within_or_left _ _))

def cleanOp (r : Registry) : Op → Prop
  | .handleEvent fd mask => ∀ n, r.cbMap.lookup fd = some n → n.cb ≠ none →
    (∃ k, ⟨fd,n.serial⟩ ∈ r.lists k) ∨ Within n.eventsToFake mask
  | .setFDReady fd mask => ∀ n, r.cbMap.lookup fd = some n → n.cb ≠ none →
    (∃ k, ⟨fd,n.serial⟩ ∈ r.lists k) ∨ Within n.eventsAsserted mask
  | _ => True

theorem Fresh.raised (h : Fresh trace r) {mask : Mask} {o : Op}
    {f : CBAndEventMask → CBAndEventMask}
    (ho : ∀ y, supply (trace ++ [Happened.did o]) y =
      if fd = y then { supply trace y with bits := (supply trace y).bits ||| mask }
      else supply trace y)
    (hcb : ∀ n, (f n).cb = n.cb)
    (hbits : ∀ n, r.cbMap.lookup fd = some n → n.cb ≠ none →
      Within (f n).eventsAsserted ((supply trace fd).bits ||| mask) ∧
        Within (f n).eventsToFake ((supply trace fd).bits ||| mask)) :
    Fresh (trace ++ [Happened.did o]) (r.raise fd f) := by
  have hsame : Fresh (trace ++ [Happened.did o]) r := by
    refine h.mono (fun y => ?_) fun y => ?_
    · rw [ho y]
      split_ifs <;> rfl
    · rw [ho y]
      split_ifs
      · exact within_or_left _ _
      · exact within_iff.mpr fun _ hi => hi
  unfold Registry.raise onRegistered
  split
  · exact hsame
  rename_i n hn
  split_ifs with hc
  · exact hsame
  apply h.raise hn (hcb n)
  · intro y hy
    rw [ho y,if_neg hy.symm]
  · rw [ho fd,if_pos rfl]
  · rw [ho fd,if_pos rfl]
    exact within_or.mpr (hbits n hn hc)

theorem Fresh.same (h : Fresh trace r) (hx : ∀ y, supply (trace ++ [x]) y = supply trace y) :
    Fresh (trace ++ [x]) r := by
  refine h.mono (fun y => by rw [hx y]) fun y => ?_
  rw [hx y]
  exact within_iff.mpr fun _ hi => hi

theorem Fresh.modify (h : Fresh trace r) (fd : Fd) (a b : Mask)
    (hx : ∀ y, supply (trace ++ [x]) y = supply trace y) :
    Fresh (trace ++ [x]) (r.modify fd a b) := by
  unfold Registry.modify onRegistered
  split
  · exact h.same hx
  split_ifs
  · exact h.same hx
  · refine Fresh.same ?_ hx
    exact h.edit fd (fun _ => rfl) (fun _ => rfl) (fun _ => rfl)

theorem Fresh.registerFD (hr : r.WF frame) (h : Fresh trace r) (fd : Fd) (cb : CB) (mask : Mask) :
    Fresh (trace ++ [Happened.did (.registerFD fd cb mask)]) (r.register fd cb mask) := by
  have hx : ∀ y, y ≠ fd →
      supply (trace ++ [Happened.did (.registerFD fd cb mask)]) y = supply trace y := by
    intro y hy
    simp [Supply.observe,hy.symm]
  unfold register
  split
  · rename_i hn
    apply h.withdraw fd hx
    · intro y hy
      rw [insertNode,lookup_insert_ite,if_neg hy]
    · intro k p hp
      exact ⟨hr.fd_ne_of_mem (by simp [hn]) hp,k,hp⟩
    · intro m c hm hc
      rw [insertNode,lookup_insert_ite,if_pos rfl] at hm
      cases hm
      simpa [Supply.observe] using hc
  · rename_i n hn
    apply h.unlinked hr hn (lists_edit _ _ _) hx
    · intro y hy
      rw [lookup_edit,if_neg hy,cbMap_unlink]
    · intro m c hm hc
      rw [lookup_edit,if_pos rfl,cbMap_unlink,hn] at hm
      cases hm
      simpa [Supply.observe] using hc

theorem Fresh.unregisterFD (hr : r.WF frame) (h : Fresh trace r) (fd : Fd) :
    Fresh (trace ++ [Happened.did (.unregisterFD fd)]) (r.unregister fd) := by
  have hx : ∀ y, supply (trace ++ [Happened.did (.unregisterFD fd)]) y = supply trace y := by
    intro y
    simp [Supply.observe]
  simp only [unregister,onRegistered]
  split
  · exact h.same hx
  rename_i n hn
  split_ifs
  · exact h.same hx
  · apply h.unlinked hr hn (lists_edit _ _ _) fun y _ => hx y
    · intro y hy
      rw [lookup_edit,if_neg hy,cbMap_unlink]
    · intro m c hm hc
      rw [lookup_edit,if_pos rfl,cbMap_unlink,hn] at hm
      cases hm
      cases hc
  · apply h.unlinked hr hn (lists_drop _ _) fun y _ => hx y
    · intro y hy
      rw [drop,lookup_erase_ite,if_neg hy,cbMap_unlink]
    · intro m c hm
      rw [drop,lookup_erase_ite,if_pos rfl] at hm
      cases hm

theorem Fresh.setFDNotReady (hr : r.WF frame) (h : Fresh trace r) (fd : Fd) :
    Fresh (trace ++ [Happened.did (.setFDNotReady fd)]) (r.notReady fd) := by
  have hx : ∀ y, y ≠ fd →
      supply (trace ++ [Happened.did (.setFDNotReady fd)]) y = supply trace y := by
    intro y hy
    simp [Supply.observe,hy.symm]
  have hinstalled : (supply (trace ++ [Happened.did (.setFDNotReady fd)]) fd).installed =
      (supply trace fd).installed := by simp [Supply.observe]
  unfold Registry.notReady
  split
  · rename_i hn
    apply h.withdraw fd hx
    · intro _ _
      rfl
    · intro k p hp
      exact ⟨hr.fd_ne_of_mem (by simp [hn]) hp,k,hp⟩
    · intro m c hm hc
      rw [hinstalled]
      exact h.installed fd m c hm hc
  · rename_i n hn
    apply h.unlinked hr hn rfl hx
    · intro _ _
      rfl
    · intro m c hm hc
      rw [hinstalled]
      exact h.installed fd m c hm hc

/-- One operation: those that take the descriptor off the lists owe nothing for its
bits, and those that put it there write one mask and find the other one clean. -/
theorem Fresh.perform (hr : r.WF frame) (h : Fresh trace r) (o : Op) (ho : r.cleanOp o) :
    Fresh (trace ++ [Happened.did o]) (r.perform o) := by
  cases o with
  | registerFD fd cb mask => exact h.registerFD hr fd cb mask
  | unregisterFD fd => exact h.unregisterFD hr fd
  | modifyCallback fd mask => exact h.modify fd _ _ (by simp [Supply.observe])
  | stopRead fd => exact h.modify fd _ _ (by simp [Supply.observe])
  | startRead fd => exact h.modify fd _ _ (by simp [Supply.observe])
  | stopWrite fd => exact h.modify fd _ _ (by simp [Supply.observe])
  | startWrite fd => exact h.modify fd _ _ (by simp [Supply.observe])
  | handleEvent fd mask =>
    refine h.raised (by simp [Supply.observe]) (fun _ => rfl) fun n hn hc =>
      ⟨within_or_right _ _,?_⟩
    rcases ho n hn hc with hl | hm
    · exact (h.bits_of_mem hn hl mask).2
    · exact hm.trans (within_or_right _ _)
  | setFDReady fd mask =>
    refine h.raised (by simp [Supply.observe]) (fun _ => rfl) fun n hn hc =>
      ⟨?_,within_or_right _ _⟩
    rcases ho n hn hc with hl | hm
    · exact (h.bits_of_mem hn hl mask).1
    · exact hm.trans (within_or_right _ _)
  | setFDNotReady fd => exact h.setFDNotReady hr fd

theorem Fresh.swapLists (h : Fresh trace r) : Fresh trace r.swapLists := by
  refine ⟨h.installed,fun k p n hp hd => ?_⟩
  rcases mem_update.mp hp with ⟨_,hp⟩ | ⟨_,hp⟩
  · exact h.bits _ p n hp hd
  · rcases mem_update.mp hp with ⟨_,hp⟩ | ⟨_,hp⟩
    · simp at hp
    · exact h.bits _ p n hp hd

theorem Fresh.takeReady (hr : r.WF frame) (h : Fresh trace r) {p : NodePtr} {n : CBAndEventMask}
    (hd : r.deref p = some n) (call : OnEventCall) (hcall : call.fd = p.fd) :
    Fresh (trace ++ [Happened.called call]) (r.takeReady p) := by
  obtain ⟨hn,hs⟩ := deref_eq_some.mp hd
  have hp : (⟨p.fd,n.serial⟩ : NodePtr) = p := by rw [hs]
  apply h.unlinked hr hn
  · rw [Registry.takeReady,lists_edit,hp]
  · intro y hy
    simp [Supply.observe,hcall,hy.symm]
  · intro y hy
    rw [Registry.takeReady,lookup_edit,if_neg hy,cbMap_unlink]
  · intro m cb hm hc
    rw [Registry.takeReady,lookup_edit,if_pos rfl,cbMap_unlink,hn] at hm
    cases hm
    simpa [Supply.observe,hcall] using h.installed p.fd n cb hn hc

theorem edit_edit (r : Registry) (fd : Fd) (f g : CBAndEventMask → CBAndEventMask) :
    (r.edit fd f).edit fd g = r.edit fd fun n => g (f n) := by
  cases hn : r.cbMap.lookup fd with
  | none => simp [edit,hn]
  | some n => simp [edit,hn,Finmap.insert_insert]

def cleanReturn (r : Registry) (trace : List Happened) (p : NodePtr) (mask : Mask) : Prop :=
  ∀ n, r.deref p = some n → n.cb ≠ none → mask ≠ 0 →
    n.cb = (supply trace p.fd).calling ∧ ((∃ k, p ∈ r.lists k) ∨ Within n.eventsAsserted mask)

theorem Fresh.finishReady {p : NodePtr} (hr : r.WF (some p)) (h : Fresh trace r) (mask : Mask)
    (hclean : r.cleanReturn trace p mask) :
    Fresh (trace ++ [Happened.returned p.fd mask]) (r.finishReady p mask) := by
  obtain ⟨n,hd⟩ := hr.frameLive rfl
  obtain ⟨hn,hs⟩ := deref_eq_some.mp hd
  have hp : p = ⟨p.fd,n.serial⟩ := by rw [hs]
  have hx : ∀ y, y ≠ p.fd →
      supply (trace ++ [Happened.returned p.fd mask]) y = supply trace y := by
    intro y hy
    simp [Supply.observe,hy.symm]
  have hinstalled : ∀ y, (supply (trace ++ [Happened.returned p.fd mask]) y).installed =
      (supply trace y).installed := by
    intro y
    rw [supply_append,Supply.observe]
    split_ifs <;> rfl
  simp only [Registry.finishReady,lookup_edit,if_true,hn,Option.map_some]
  split_ifs with hc hm
  · -- a tombstone is linked nowhere
    apply h.withdraw p.fd hx
    · intro y hy
      rw [drop,lookup_erase_ite,if_neg hy,lookup_edit,if_neg hy]
    · intro k q hq
      rw [lists_drop,lists_edit] at hq
      exact ⟨hr.fd_ne_of_mem (by simp [hn,hc]) hq,k,hq⟩
    · intro m cb hm
      rw [drop,lookup_erase_ite,if_pos rfl] at hm
      cases hm
  · refine Fresh.mono ?_ hinstalled fun y => ?_
    · exact h.edit p.fd (fun _ => rfl) (fun _ => rfl) (fun _ => rfl)
    rw [supply_append,Supply.observe]
    split_ifs
    · exact within_or_left _ _
    · exact within_iff.mpr fun _ hi => hi
  · obtain ⟨hcalling,hl⟩ := hclean n hd hc hm
    obtain ⟨cb,hcb⟩ := Option.ne_none_iff_exists'.mp hc
    have hown : (supply trace p.fd).calling = (supply trace p.fd).installed := by
      rw [← hcalling,hcb,h.installed p.fd n cb hn hcb]
    rw [edit_edit,hp]
    apply h.raise hn rfl hx (hinstalled p.fd)
    rw [supply_append,Supply.observe,if_pos ⟨rfl,hown⟩,within_or]
    refine ⟨?_,within_or_right _ _⟩
    rcases hl with hl | hl
    · rw [hp] at hl
      exact (h.bits_of_mem hn hl mask).1
    · exact hl.trans (within_or_right _ _)

end Registry

theorem NoStaleBits.append {trace : List Happened} (h : NoStaleBits trace) {x : Happened}
    (hx : ∀ call, x = .called call → (supply trace call.fd).installed = some call.cb ∧
      Within call.inEvents (supply trace call.fd).bits) : NoStaleBits (trace ++ [x]) := by
  intro front call back heq
  rcases List.eq_nil_or_concat back with rfl | ⟨back,y,rfl⟩
  · obtain ⟨rfl,rfl⟩ := List.append_singleton_inj.mp heq
    exact hx call rfl
  · rw [List.concat_eq_append,← List.cons_append,← List.append_assoc] at heq
    exact h front call back (List.append_singleton_inj.mp heq).1

namespace EpollConfig

variable {c : EpollConfig} {a : RegistryConfig}

theorem Coupled.cleanOp (h : Coupled c a) {o : Op} (ho : c.isClean (.op o) = true) :
    a.registry.cleanOp o := by
  cases o with
  | handleEvent fd mask =>
    intro n hn hc
    simp only [isClean,h.refines.cbMap,hn,Option.all_some,decide_eq_true_eq,hc,false_or] at ho
    exact ho.imp_left (h.refines.rep.linked _).mp
  | setFDReady fd mask =>
    intro n hn hc
    simp only [isClean,h.refines.cbMap,hn,Option.all_some,decide_eq_true_eq,hc,false_or] at ho
    exact ho.imp_left (h.refines.rep.linked _).mp
  | _ => trivial

theorem Coupled.cleanReturn (h : Coupled c a) {p : NodePtr} (hp : a.control = .onEvent p)
    {mask : Mask} (ho : c.isClean (.onEventReturns mask) = true) :
    a.registry.cleanReturn a.trace p mask := by
  intro n hd hc hm
  rw [isClean,h.control,hp,h.trace] at ho
  simp only [Control.frame,h.refines.deref,hd,Option.all_some,decide_eq_true_eq,hc,hm,false_or] at ho
  exact ho.imp_right fun hl => hl.imp_left (h.refines.rep.linked _).mp

def Current (c : EpollConfig) : Prop :=
  ∃ a, Coupled c a ∧ a.registry.Fresh a.trace ∧ NoStaleBits a.trace

theorem current_initial : Current init :=
  ⟨.init,.initial,⟨fun _ _ _ hn => by simp [RegistryConfig.init,Registry.init] at hn,
    fun _ _ _ hp => by simp [RegistryConfig.init,Registry.init] at hp⟩,
    fun _ _ _ h => by simp [RegistryConfig.init] at h⟩

theorem current_inductive : clean.Inductive Current where
  keeps := by
    rintro c e ⟨a,ha,hfresh,hstale⟩ ⟨he,hclean⟩
    obtain ⟨c',hc',ha'⟩ := ha.step he
    refine ⟨c',hc',a.step e,ha',?_⟩
    cases e with
    | op o => exact ⟨hfresh.perform ha.wf o (ha.cleanOp hclean),hstale.append (by simp)⟩
    | callReadyListCallbacks => exact ⟨hfresh.swapLists,hstale⟩
    | nextReady =>
      cases hl : a.registry.lists .tmpList with
      | nil => simpa [RegistryConfig.step,hl] using ⟨hfresh,hstale⟩
      | cons p rest =>
        have hp : p ∈ a.registry.lists .tmpList := by simp [hl]
        obtain ⟨n,hd,hcb⟩ := ha.wf.member hp
        obtain ⟨cb,hcb⟩ := Option.ne_none_iff_exists'.mp hcb
        have hstep : a.step .nextReady = ⟨a.registry.takeReady p,.onEvent p,
            a.trace ++ [Happened.called ⟨cb,p.fd,n.eventsAsserted ||| n.eventsToFake⟩]⟩ := by
          simp [RegistryConfig.step,hl,hd,hcb]
        rw [hstep]
        refine ⟨hfresh.takeReady ha.wf hd _ rfl,hstale.append fun call hcall => ?_⟩
        cases hcall
        exact ⟨hfresh.installed p.fd n cb (Registry.deref_eq_some.mp hd).1 hcb,
          hfresh.bits _ p n hp hd⟩
    | onEventReturns mask =>
      cases hc : a.control with
      | onEvent p =>
        have hr : a.registry.WF (some p) := by
          have hwf := ha.wf
          rwa [hc] at hwf
        simp only [RegistryConfig.step,hc]
        exact ⟨hfresh.finishReady hr mask (ha.cleanReturn hc hclean),hstale.append (by simp)⟩
      | _ => simpa [RegistryConfig.step,hc] using ⟨hfresh,hstale⟩

/-- In every run of clean steps, whatever the callbacks do, an `OnEvent` sees only bits
that were supplied for its descriptor after its callback was installed and after the
descriptor was last set not ready. -/
theorem noStaleBits_of_clean_run {es : List Event} {c : EpollConfig} (h : clean.Run init es c) :
    NoStaleBits c.trace := by
  obtain ⟨a,ha,_,hstale⟩ := current_inductive.run h current_initial
  rw [ha.trace]
  exact hstale

/-- A descriptor that is withdrawn while it waits, reported again and requeued by its
own callback, and then taken over by another one. -/
theorem noStaleBits_of_requeuing_run : ∃ c, clean.Run init
    [.op (.registerFD 3 1 epollIn),.op (.handleEvent 3 epollIn),.op (.setFDNotReady 3),
      .op (.handleEvent 3 epollOut),.callReadyListCallbacks,.nextReady,.onEventReturns epollIn,
      .nextReady,.callReadyListCallbacks,.nextReady,.op (.registerFD 3 2 epollOut),
      .op (.setFDReady 3 epollOut),.onEventReturns 0,.nextReady,.callReadyListCallbacks,
      .nextReady] c ∧ c.trace.countP (fun x => x matches .called _) = 3 ∧
    NoStaleBits c.trace :=
  let ⟨c,hc,hn⟩ := clean.exists_run_of_exec_any
    (f:=fun c => c.trace.countP (fun x => x matches .called _) = 3) (by decide +kernel)
  ⟨c,hc,of_decide_eq_true hn,noStaleBits_of_clean_run hc⟩

/-- `RegisterFD` clears one of the two masks only: a bit that was reported to the first
callback of a descriptor and not yet delivered goes to the second one, as soon as
that one is made ready. -/
theorem registerFD_leaves_stale_bits :
    ¬∀ es c, machine.Run init es c → NoStaleBits c.trace := by
  intro h
  obtain ⟨c,hc,ht⟩ : ∃ c, machine.Run init [.op (.registerFD 3 1 epollIn),
      .op (.handleEvent 3 epollIn),.op (.registerFD 3 2 epollOut),.op (.setFDReady 3 epollOut),
      .callReadyListCallbacks,.nextReady] c ∧
      decide (c.trace = [.did (.registerFD 3 1 epollIn),.did (.handleEvent 3 epollIn),
        .did (.registerFD 3 2 epollOut),.did (.setFDReady 3 epollOut),
        .called ⟨2,3,epollIn ||| epollOut⟩]) = true :=
    machine.exists_run_of_exec_any (by decide +kernel)
  have hbits := (h _ c hc [.did (.registerFD 3 1 epollIn),.did (.handleEvent 3 epollIn),
    .did (.registerFD 3 2 epollOut),.did (.setFDReady 3 epollOut)] _ []
    (of_decide_eq_true ht)).2
  revert hbits
  decide +kernel

end EpollConfig
end CmuQuic
