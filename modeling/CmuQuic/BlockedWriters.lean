import CmuQuic.DispatcherSteps
import CmuQuic.ServiceQueue

/-! One call of `QuicDispatcher::OnCanWrite`, with blocked writers that write, report
and close connections as they like. -/
namespace CmuQuic

/-- What a connection may do in its `OnCanWrite`. -/
inductive WriterAction
  | writePacket (status : WriteStatus)
  | onWriteBlocked (blockedWriter : QuicBlockedWriter)
  | closeConnection (s : SessionId)

/-- The blocked writers. What a connection does, and how the writes of the time-wait
list manager end, may depend on whom the call has served before. -/
structure BlockedWriters where
  connection : List QuicBlockedWriter → SessionId → List WriterAction
  statuses : List QuicBlockedWriter → List WriteStatus

/-- A call of `OnCanWrite` in progress: who was served, which connections were erased
from the list of blocked writers, and who was reported while the writer was blocked. -/
structure CanWrite where
  dispatcher : Dispatcher
  served : List QuicBlockedWriter
  closed : List QuicBlockedWriter
  reported : List QuicBlockedWriter
  /-- The states in which the loop went on. -/
  heads : List Dispatcher

namespace Dispatcher

/-- The connection that is erased from the list when the given session reports its
close. -/
def closedWriter (d : Dispatcher) (s : SessionId) : Option QuicBlockedWriter := do
  let x ← d.sessions s
  let session ← d.sessionMap.find x.connectionId
  some (.connection session)

end Dispatcher

namespace CanWrite

def act (c : CanWrite) : WriterAction → Except Abort CanWrite
  | .writePacket status => do
    let d ← c.dispatcher.writePacket status
    .ok { c with dispatcher := d }
  | .onWriteBlocked blockedWriter =>
    .ok { c with
      dispatcher := c.dispatcher.onWriteBlocked blockedWriter
      reported := c.reported ++ if c.dispatcher.writeBlocked then [blockedWriter] else [] }
  | .closeConnection s => do
    let d ← c.dispatcher.step (.sessionOnConnectionClosed s)
    .ok { c with dispatcher := d, closed := c.closed ++ (c.dispatcher.closedWriter s).toList }

def acts (c : CanWrite) : List WriterAction → Except Abort CanWrite
  | [] => .ok c
  | a :: as => do
    let c ← c.act a
    c.acts as

/-- `QuicTimeWaitListManager::OnCanWrite`. Every turn that goes on sends a packet of the
queue. -/
def timeWaitOnCanWrite (c : CanWrite) : ℕ → List WriteStatus → Except Abort CanWrite
  | 0, _ => .ok c
  | fuel+1, statuses => do
    let d ← c.dispatcher.timeWaitOnCanWrite (statuses.headD .ok)
    if d.control = .timeWaitOnCanWrite then
      timeWaitOnCanWrite { c with dispatcher := d } fuel statuses.tail
    else .ok { c with
      dispatcher := d
      reported := c.reported ++ if d.pendingPacketsQueue.isEmpty then [] else [.timeWaitListManager] }

def serve (writers : BlockedWriters) (c : CanWrite) : QuicBlockedWriter → Except Abort CanWrite
  | .connection s => do
    let c ← c.acts (writers.connection c.served s)
    let d ← c.dispatcher.returns
    .ok { c with dispatcher := d }
  | .timeWaitListManager =>
    c.timeWaitOnCanWrite (c.dispatcher.pendingPacketsQueue.length+1) (writers.statuses c.served)

def serving (d : Dispatcher) : Option QuicBlockedWriter :=
  match d.control with
  | .connectionOnCanWrite s => some (.connection s)
  | .timeWaitOnCanWrite => some .timeWaitListManager
  | _ => none

def take (c : CanWrite) (d : Dispatcher) (w : QuicBlockedWriter) : CanWrite :=
  { c with dispatcher := d, served := c.served ++ [w], heads := c.heads ++ [c.dispatcher] }

/-- The loop of `OnCanWrite`; `none` if it is still running. -/
def loop (writers : BlockedWriters) : ℕ → CanWrite → Option (Except Abort CanWrite)
  | 0, _ => none
  | fuel+1, c =>
    match c.dispatcher.serveBlockedWriter with
    | .error a => some (.error a)
    | .ok d =>
      match serving d with
      | none => some (.ok { c with dispatcher := d })
      | some w =>
        match serve writers (c.take d w) w with
        | .error a => some (.error a)
        | .ok c => loop writers fuel c

def start (d : Dispatcher) : CanWrite := ⟨d.onCanWrite,[],[],[],[]⟩

/-- The writers that the loop calls from this state on, each with the state it is called in. -/
inductive Calls (writers : BlockedWriters) : CanWrite → CanWrite → QuicBlockedWriter → Prop
  | here {c d w} : c.dispatcher.serveBlockedWriter = .ok d → serving d = some w →
    Calls writers c (c.take d w) w
  | later {c c' c'' d w w'} : c.dispatcher.serveBlockedWriter = .ok d → serving d = some w →
    serve writers (c.take d w) w = .ok c' → Calls writers c' c'' w' → Calls writers c c'' w'

/-- What is left to do for the loop: it stops when the writer is blocked. -/
def Stopped (d : Dispatcher) : Prop := d.writeBlockedList.entries = [] ∨ d.writeBlocked = true

end CanWrite

namespace Dispatcher

variable {d d' : Dispatcher}

structure Steady (d d' : Dispatcher) : Prop where
  control : d'.control = d.control
  alive : ∀ s, (d.sessions s).isSome = true → (d'.sessions s).isSome = true

theorem writePacket_steady {status : WriteStatus} (h : d.writePacket status = .ok d') :
    Steady d d' ∧ d'.writeBlockedList = d.writeBlockedList ∧
      (d'.writeBlocked = d.writeBlocked ∨ d'.writeBlocked = true) := by
  unfold writePacket at h
  split_ifs at h
  · cases h
    exact ⟨⟨rfl,fun _ hs => hs⟩,rfl,Or.inr rfl⟩
  · cases h
    exact ⟨⟨rfl,fun _ hs => hs⟩,rfl,Or.inl rfl⟩

theorem onWriteBlocked_of_writable (h : d.writeBlocked = false) (w : QuicBlockedWriter) :
    (d.onWriteBlocked w).writeBlockedList = d.writeBlockedList := by
  simp [onWriteBlocked,h,fatal]

theorem onWriteBlocked_steady (d : Dispatcher) (w : QuicBlockedWriter) :
    Steady d (d.onWriteBlocked w) ∧ (d.onWriteBlocked w).writeBlocked = d.writeBlocked ∧
      (d.onWriteBlocked w).writeBlockedList.keys = if d.writeBlocked then
        (if w ∈ d.writeBlockedList.keys then d.writeBlockedList.keys
          else d.writeBlockedList.keys ++ [w]) else d.writeBlockedList.keys := by
  by_cases hb : d.writeBlocked = true
  · rw [onWriteBlocked,if_pos hb,if_pos hb]
    exact ⟨⟨rfl,fun _ hs => hs⟩,rfl,LinkedHashMap.keys_insert _ _ _⟩
  · rw [onWriteBlocked,if_neg hb,if_neg hb]
    exact ⟨⟨rfl,fun _ hs => hs⟩,rfl,rfl⟩

theorem sessionOnConnectionClosed_steady {s : SessionId}
    (h : d.step (.sessionOnConnectionClosed s) = .ok d') :
    Steady d d' ∧ d'.writeBlocked = d.writeBlocked ∧
      d'.writeBlockedList.keys = match d.closedWriter s with
        | none => d.writeBlockedList.keys
        | some w => d.writeBlockedList.keys.filter fun x => x ≠ w := by
  obtain ⟨x,hx,h⟩ := withSession_ok h
  cases hfind : d.sessionMap.find x.connectionId with
  | none =>
    have hnone : d.closedWriter s = none := by simp [closedWriter,hx,hfind]
    have hfind' : (d.writeSession s { x with connected := false }).sessionMap.find x.connectionId =
      none := hfind
    simp only [onConnectionClosed,hfind'] at h
    cases h
    rw [hnone]
    exact ⟨⟨rfl,fun _ ht => isSome_update ht⟩,rfl,rfl⟩
  | some session =>
    have hsome : d.closedWriter s = some (.connection session) := by simp [closedWriter,hx,hfind]
    obtain ⟨y,alarm,l,_,_,_,_,rfl⟩ := onConnectionClosed_cases
      (d:=d.writeSession s { x with connected := false }) hfind h
    rw [hsome]
    exact ⟨⟨rfl,fun _ ht => isSome_update (isSome_update ht)⟩,rfl,LinkedHashMap.keys_erase _ _⟩

end Dispatcher

namespace CanWrite

/-- What holds of a call in progress, of a dispatcher in the beginning. -/
structure Fair (d₀ : Dispatcher) (c : CanWrite) : Prop where
  waiting : Waiting d₀.writeBlockedList.keys c.served c.closed c.reported
    c.dispatcher.writeBlockedList.keys c.dispatcher.writeBlocked
  heads : ∀ h ∈ c.heads, h.control = .canWriteLoop ∧ ¬ Stopped h
  turns : c.heads.length = c.served.length

/-- As long as the writer is not blocked the list does not grow. -/
structure Goes (c c' : CanWrite) : Prop where
  shrinks : c'.dispatcher.writeBlocked = false → c.dispatcher.writeBlocked = false ∧
    c'.dispatcher.writeBlockedList.keys.length ≤ c.dispatcher.writeBlockedList.keys.length
  alive : ∀ s, (c.dispatcher.sessions s).isSome = true → (c'.dispatcher.sessions s).isSome = true

variable {d₀ : Dispatcher} {c c' c'' : CanWrite}

theorem Goes.refl (c : CanWrite) : Goes c c := ⟨fun h => ⟨h,le_rfl⟩,fun _ h => h⟩

theorem Goes.trans (h : Goes c c') (h' : Goes c' c'') : Goes c c'' where
  shrinks hb := by
    obtain ⟨hb',hlen'⟩ := h'.shrinks hb
    obtain ⟨hb,hlen⟩ := h.shrinks hb'
    exact ⟨hb,hlen'.trans hlen⟩
  alive s hs := h'.alive s (h.alive s hs)

theorem act_fair {a : WriterAction} (hf : Fair d₀ c) (h : c.act a = .ok c') :
    Fair d₀ c' ∧ Goes c c' ∧ c'.dispatcher.control = c.dispatcher.control := by
  cases a with
  | writePacket status =>
    obtain ⟨d,hd,h⟩ := except_bind_eq_ok h
    cases h
    obtain ⟨hs,hlist,hb⟩ := Dispatcher.writePacket_steady hd
    have hw := hf.waiting
    refine ⟨⟨?_,hf.heads,hf.turns⟩,⟨fun hfree => ?_,hs.alive⟩,hs.control⟩
    · rw [hlist]
      rcases hb with hb | hb
      · rw [hb]
        exact hw
      · rw [hb]
        exact hw.block
    · rcases hb with hb | hb
      · exact ⟨hb ▸ hfree,by rw [hlist]⟩
      · rw [hb] at hfree
        cases hfree
  | onWriteBlocked w =>
    cases h
    obtain ⟨hs,hb,hkeys⟩ := Dispatcher.onWriteBlocked_steady c.dispatcher w
    have hw := hf.waiting
    cases hblocked : c.dispatcher.writeBlocked with
    | true =>
      rw [hblocked] at hw hb hkeys
      refine ⟨⟨?_,hf.heads,hf.turns⟩,⟨fun hfree => ?_,hs.alive⟩,hs.control⟩
      · rw [hb,hkeys]
        exact hw.report w
      · rw [hb] at hfree
        cases hfree
    | false =>
      rw [hblocked] at hw hb hkeys
      refine ⟨⟨?_,hf.heads,hf.turns⟩,⟨fun _ => ⟨hblocked,by rw [hkeys]; rfl⟩,hs.alive⟩,hs.control⟩
      rw [hb,hkeys]
      simpa using hw
  | closeConnection s =>
    obtain ⟨d,hd,h⟩ := except_bind_eq_ok h
    cases h
    obtain ⟨hs,hb,hkeys⟩ := Dispatcher.sessionOnConnectionClosed_steady hd
    have hw := hf.waiting
    refine ⟨⟨?_,hf.heads,hf.turns⟩,⟨fun hfree => ⟨hb ▸ hfree,?_⟩,hs.alive⟩,hs.control⟩
    · rw [hb,hkeys]
      cases hc : c.dispatcher.closedWriter s with
      | none => simpa using hw
      | some w => exact hw.close w
    · rw [hkeys]
      cases hc : c.dispatcher.closedWriter s with
      | none => exact le_rfl
      | some w => exact List.length_filter_le _ _

theorem acts_fair {as : List WriterAction} (hf : Fair d₀ c) (h : c.acts as = .ok c') :
    Fair d₀ c' ∧ Goes c c' ∧ c'.dispatcher.control = c.dispatcher.control := by
  induction as generalizing c with
  | nil =>
    cases h
    exact ⟨hf,.refl _,rfl⟩
  | cons a as ih =>
    obtain ⟨c₁,h₁,h⟩ := except_bind_eq_ok h
    obtain ⟨hf₁,hg₁,hc₁⟩ := act_fair hf h₁
    obtain ⟨hf₂,hg₂,hc₂⟩ := ih hf₁ h
    exact ⟨hf₂,hg₁.trans hg₂,hc₂.trans hc₁⟩

theorem timeWaitOnCanWrite_fair {fuel : ℕ} {statuses : List WriteStatus} (hf : Fair d₀ c)
    (hc : c.dispatcher.control = .timeWaitOnCanWrite)
    (hfuel : c.dispatcher.pendingPacketsQueue.length < fuel)
    (h : c.timeWaitOnCanWrite fuel statuses = .ok c') :
    Fair d₀ c' ∧ Goes c c' ∧ c'.dispatcher.control = .canWriteLoop := by
  induction fuel generalizing c statuses with
  | zero => omega
  | succ fuel ih =>
    obtain ⟨d,hd,h⟩ := except_bind_eq_ok h
    rcases Dispatcher.timeWaitOnCanWrite_cases hd with ⟨hq,rfl⟩ | ⟨p,rest,hq,rfl⟩ | ⟨hq,rfl⟩
    · rw [if_neg (by simp)] at h
      cases h
      refine ⟨⟨?_,hf.heads,hf.turns⟩,⟨fun hb => ⟨hb,le_rfl⟩,fun _ hs => hs⟩,rfl⟩
      simpa [hq] using hf.waiting
    · rw [if_pos hc] at h
      rw [hq,List.length_cons] at hfuel
      have hf₁ : Fair d₀ { c with dispatcher := { c.dispatcher with
          written := c.dispatcher.written ++ [p], pendingPacketsQueue := rest } } :=
        ⟨hf.waiting,hf.heads,hf.turns⟩
      obtain ⟨hf₂,hg,hc₂⟩ := ih hf₁ hc (Nat.lt_of_succ_lt_succ hfuel) h
      exact ⟨hf₂,⟨hg.shrinks,hg.alive⟩,hc₂⟩
    · rw [if_neg (by simp)] at h
      cases h
      have hempty : c.dispatcher.pendingPacketsQueue.isEmpty = false := by simpa using hq
      refine ⟨⟨?_,hf.heads,hf.turns⟩,⟨fun hb => ?_,fun _ hs => hs⟩,rfl⟩
      case refine_2 => cases hb
      simp only [hempty,Bool.false_eq_true,if_false,LinkedHashMap.keys_insert]
      exact hf.waiting.block.report _

theorem serve_fair {writers : BlockedWriters} {w : QuicBlockedWriter} (hf : Fair d₀ c)
    (hc : c.dispatcher.control = w.onCanWrite) (h : c.serve writers w = .ok c') :
    Fair d₀ c' ∧ Goes c c' ∧ c'.dispatcher.control = .canWriteLoop := by
  cases w with
  | connection s =>
    obtain ⟨c₁,h₁,h⟩ := except_bind_eq_ok h
    obtain ⟨hf₁,hg₁,hc₁⟩ := acts_fair hf h₁
    have hctl : c₁.dispatcher.control = .connectionOnCanWrite s := hc₁.trans hc
    obtain ⟨d,hd,h⟩ := except_bind_eq_ok h
    simp only [Dispatcher.returns,hctl] at hd
    cases hd
    cases h
    exact ⟨⟨hf₁.waiting,hf₁.heads,hf₁.turns⟩,⟨hg₁.shrinks,hg₁.alive⟩,rfl⟩
  | timeWaitListManager => exact timeWaitOnCanWrite_fair hf hc (Nat.lt_succ_self _) h

theorem timeWaitOnCanWrite_ok (fuel : ℕ) (statuses : List WriteStatus) :
    ∃ c', c.timeWaitOnCanWrite fuel statuses = .ok c' := by
  induction fuel generalizing c statuses with
  | zero => exact ⟨c,rfl⟩
  | succ fuel ih =>
    obtain ⟨d,hd⟩ := Dispatcher.timeWaitOnCanWrite_ok (d:=c.dispatcher) (statuses.headD .ok)
    simp only [CanWrite.timeWaitOnCanWrite,hd,except_ok_bind]
    split_ifs
    · exact ih _
    · exact ⟨_,rfl⟩
    · exact ⟨_,rfl⟩

theorem serve_error {writers : BlockedWriters} {w : QuicBlockedWriter} {a : Abort} (hf : Fair d₀ c)
    (hc : c.dispatcher.control = w.onCanWrite) (h : c.serve writers w = .error a) :
    ∃ s, w = .connection s ∧ c.acts (writers.connection c.served s) = .error a := by
  cases w with
  | connection s =>
    refine ⟨s,rfl,?_⟩
    cases hacts : c.acts (writers.connection c.served s) with
    | error b =>
      simp only [serve,hacts] at h
      cases h
      rfl
    | ok c₁ =>
      obtain ⟨_,_,hctl⟩ := acts_fair hf hacts
      have hctl : c₁.dispatcher.control = .connectionOnCanWrite s := hctl.trans hc
      simp only [serve,hacts,except_ok_bind,Dispatcher.returns,hctl] at h
      cases h
  | timeWaitListManager =>
    obtain ⟨c',hc'⟩ := timeWaitOnCanWrite_ok (c:=c) (c.dispatcher.pendingPacketsQueue.length+1)
      (writers.statuses c.served)
    rw [serve,hc'] at h
    cases h

theorem serveBlockedWriter_total (d : Dispatcher)
    (halive : ∀ s, .connection s ∈ d.writeBlockedList.keys → d.writeBlocked = false →
      (d.sessions s).isSome = true) :
    (Stopped d ∧ d.serveBlockedWriter = .ok { d with control := .idle }) ∨
    (¬ Stopped d ∧ ∃ w rest, d.writeBlockedList.keys = w :: rest ∧
      d.writeBlockedList.popFront.keys = rest ∧ d.serveBlockedWriter = .ok { d with
        writeBlockedList := d.writeBlockedList.popFront, control := w.onCanWrite }) := by
  cases he : d.writeBlockedList.entries with
  | nil => exact Or.inl ⟨Or.inl he,by simp [Dispatcher.serveBlockedWriter,he]⟩
  | cons e es =>
    cases hb : d.writeBlocked with
    | true => exact Or.inl ⟨Or.inr hb,by simp [Dispatcher.serveBlockedWriter,he,hb]⟩
    | false =>
      have hkeys : d.writeBlockedList.keys = e.1 :: es.map Prod.fst := by
        rw [LinkedHashMap.keys,he,List.map_cons]
      have hrest : d.writeBlockedList.popFront.keys = es.map Prod.fst := by
        rw [LinkedHashMap.keys,LinkedHashMap.popFront_of_cons he]
      refine Or.inr ⟨by simp [Stopped,he,hb],e.1,_,hkeys,hrest,?_⟩
      obtain ⟨w,b⟩ := e
      cases w with
      | timeWaitListManager =>
        simp [Dispatcher.serveBlockedWriter,he,hb,QuicBlockedWriter.onCanWrite]
      | connection s =>
        obtain ⟨x,hx⟩ := Option.isSome_iff_exists.mp (halive s (by simp [hkeys]) hb)
        simp [Dispatcher.serveBlockedWriter,he,hb,hx,QuicBlockedWriter.onCanWrite]

theorem serving_onCanWrite (d : Dispatcher) (w : QuicBlockedWriter)
    (h : d.control = w.onCanWrite) : serving d = some w := by
  cases w <;> simp [serving,h,QuicBlockedWriter.onCanWrite]

theorem writable_of_goes {d : Dispatcher} (h : ¬ Stopped d) : d.writeBlocked = false := by
  cases hb : d.writeBlocked with
  | true => exact absurd (Or.inr hb) h
  | false => rfl

theorem Fair.take {d : Dispatcher} {w : QuicBlockedWriter} {rest : List QuicBlockedWriter}
    (hf : Fair d₀ c) (hc : c.dispatcher.control = .canWriteLoop) (hgoes : ¬ Stopped c.dispatcher)
    (hkeys : c.dispatcher.writeBlockedList.keys = w :: rest)
    (hrest : d.writeBlockedList.keys = rest) (hb : d.writeBlocked = c.dispatcher.writeBlocked) :
    Fair d₀ (c.take d w) := by
  have hfree := writable_of_goes hgoes
  refine ⟨?_,fun h hh => ?_,by simp [CanWrite.take,hf.turns]⟩
  · have hw := hf.waiting
    rw [hfree,hkeys] at hw
    simp only [CanWrite.take,hrest,hb,hfree]
    exact hw.serve
  · rcases List.mem_append.mp hh with hh | hh
    · exact hf.heads h hh
    · obtain rfl := List.mem_singleton.mp hh
      exact ⟨hc,hgoes⟩

theorem loop_stops {writers : BlockedWriters} {fuel : ℕ}
    (h : c.dispatcher.serveBlockedWriter = .ok { c.dispatcher with control := .idle }) :
    loop writers (fuel+1) c = some (.ok { c with dispatcher := { c.dispatcher with control := .idle } }) := by
  rw [loop,h]
  rfl

theorem loop_turn {writers : BlockedWriters} {fuel : ℕ} {d : Dispatcher} {w : QuicBlockedWriter}
    (h : c.dispatcher.serveBlockedWriter = .ok d) (hw : d.control = w.onCanWrite) :
    loop writers (fuel+1) c = match serve writers (c.take d w) w with
      | .error a => some (.error a)
      | .ok c => loop writers fuel c := by
  rw [loop,h]
  simp only [serving_onCanWrite d w hw]

/-- The loop ends: every turn takes somebody out of the list, and once the writer is
blocked and the list may grow there is no further turn. -/
theorem loop_fair (writers : BlockedWriters) (fuel : ℕ) (hf : Fair d₀ c)
    (hc : c.dispatcher.control = .canWriteLoop)
    (halive : ∀ s, .connection s ∈ d₀.writeBlockedList.keys →
      (c.dispatcher.sessions s).isSome = true) (hpos : 0 < fuel)
    (hfuel : c.dispatcher.writeBlocked = false →
      c.dispatcher.writeBlockedList.keys.length < fuel) :
    ∃ r, loop writers fuel c = some r ∧
      (∀ c', r = .ok c' → Fair d₀ c' ∧ Stopped c'.dispatcher) ∧
      ∀ a, r = .error a → ∃ c' s, Calls writers c c' (.connection s) ∧
        c'.acts (writers.connection c'.served s) = .error a := by
  induction fuel generalizing c with
  | zero => omega
  | succ fuel ih =>
    have hlist : ∀ s, .connection s ∈ c.dispatcher.writeBlockedList.keys →
        c.dispatcher.writeBlocked = false → (c.dispatcher.sessions s).isSome = true := by
      intro s hs hb
      have hw := hf.waiting
      rw [hb] at hw
      exact halive s (hw.mem_all hs)
    rcases serveBlockedWriter_total c.dispatcher hlist with
      ⟨hstop,hserve⟩ | ⟨hgoes,w,rest,hkeys,hrest,hserve⟩
    · rw [loop_stops hserve]
      refine ⟨_,rfl,fun c' hc' => ?_,fun a ha => by cases ha⟩
      cases hc'
      exact ⟨⟨hf.waiting,hf.heads,hf.turns⟩,hstop⟩
    · have hf₁ := hf.take hc hgoes hkeys hrest (d:={ c.dispatcher with
        writeBlockedList := c.dispatcher.writeBlockedList.popFront, control := w.onCanWrite }) rfl
      rw [loop_turn hserve rfl]
      cases h₂ : serve writers _ w with
      | error a =>
        refine ⟨_,rfl,fun c' hc' => ?_,fun a' ha' => ?_⟩
        · cases hc'
        · cases ha'
          obtain ⟨s,rfl,hs⟩ := serve_error hf₁ rfl h₂
          exact ⟨_,s,.here hserve (serving_onCanWrite _ _ rfl),hs⟩
      | ok c₂ =>
        obtain ⟨hf₂,hg₂,hc₂⟩ := serve_fair hf₁ rfl h₂
        have hlen := hfuel (writable_of_goes hgoes)
        rw [hkeys,List.length_cons] at hlen
        have hfuel₂ : c₂.dispatcher.writeBlocked = false →
            c₂.dispatcher.writeBlockedList.keys.length < fuel := fun hb₂ => by
          have hshrinks := (hg₂.shrinks hb₂).2
          simp only [CanWrite.take,hrest] at hshrinks
          omega
        obtain ⟨r,hr,hok,herror⟩ := ih hf₂ hc₂ (fun s hs => hg₂.alive s (halive s hs)) (by omega) hfuel₂
        refine ⟨r,hr,hok,fun a ha => ?_⟩
        obtain ⟨c',s,hcall,hacts⟩ := herror a ha
        exact ⟨c',s,.later hserve (serving_onCanWrite _ _ rfl) h₂ hcall,hacts⟩

/-- The whole call, as it was when it came back. -/
structure Served (d : Dispatcher) (c : CanWrite) : Prop where
  /-- Whoever waited in the beginning was served in turn, has left, or waits in the old
  order; the newcomers wait behind. -/
  order : ∃ front back newly, d.writeBlockedList.keys = front ++ back ∧ c.served.Sublist front ∧
    (∀ w ∈ front, w ∈ c.served ∨ w ∈ c.closed) ∧
    c.dispatcher.writeBlockedList.keys = (back.filter fun w => w ∉ c.closed) ++ newly ∧
    newly.Sublist c.reported
  once : c.served.Nodup
  heard : ∀ w ∈ c.reported, w ∈ c.dispatcher.writeBlockedList.keys ∨ w ∈ c.closed
  /-- The loop went on in these states, once for everybody who was served. -/
  heads : (∀ h ∈ c.heads, ¬ Stopped h) ∧ c.heads.length = c.served.length
  stopped : Stopped c.dispatcher

theorem Fair.served {d : Dispatcher} (h : Fair d c) (hs : Stopped c.dispatcher) : Served d c := by
  refine ⟨h.waiting.order,?_,h.waiting.heard,⟨fun x hx => (h.heads x hx).2,h.turns⟩,hs⟩
  obtain ⟨front,back,_,hall,hserved,_⟩ := h.waiting.order
  have hnd : d.writeBlockedList.keys.Nodup := d.writeBlockedList.nodup
  rw [hall] at hnd
  exact hnd.of_append_left.sublist hserved

/-- Whatever the blocked writers do, the call comes back after at most as many turns as
there were writers and has served fairly, unless a connection that it calls aborts in its own
code; and nobody is made to wait for a writer that is not blocked. -/
theorem onCanWrite_serves (d : Dispatcher) (writers : BlockedWriters)
    (halive : ∀ s, .connection s ∈ d.writeBlockedList.keys → (d.sessions s).isSome = true) :
    (∃ r, loop writers (d.writeBlockedList.size+1) (start d) = some r ∧
      (∀ c, r = .ok c → Served d c) ∧
      ∀ a, r = .error a → ∃ c s, Calls writers (start d) c (.connection s) ∧
        c.acts (writers.connection c.served s) = .error a) ∧
    ∀ (e : Dispatcher) (w : QuicBlockedWriter), e.writeBlocked = false →
      (e.onWriteBlocked w).writeBlockedList = e.writeBlockedList := by
  refine ⟨?_,fun e w he => Dispatcher.onWriteBlocked_of_writable he w⟩
  have hstart : Fair d (start d) := ⟨.initial _,by simp [start],rfl⟩
  have hsize : d.writeBlockedList.keys.length = d.writeBlockedList.size := List.length_map _
  obtain ⟨r,hr,hok,herror⟩ := loop_fair writers (d.writeBlockedList.size+1) hstart rfl halive
    (Nat.succ_pos _) (fun _ => by simp [start,Dispatcher.onCanWrite,hsize])
  refine ⟨r,hr,fun c hc => ?_,herror⟩
  obtain ⟨hf,hs⟩ := hok c hc
  exact hf.served hs

def threeBlocked : Dispatcher :=
  { Dispatcher.init [25] 200 (-1) 100 25 with
    sessions := fun s => if s < 3 then some ⟨s+7,25,none,true⟩ else none
    created := 3
    sessionMap := ⟨[(7,0),(8,1),(9,2)],by decide⟩
    writeBlocked := true
    writeBlockedList := ⟨[(.connection 0,true),(.connection 1,true),(.connection 2,true)],by decide⟩ }

/-- The first session closes the second; the third blocks the writer, and both it and the
first wait again. -/
theorem onCanWrite_serves_three : ∃ c, loop ⟨fun _ s => if s = 0 then
      [.writePacket .ok,.closeConnection 1] else [.writePacket .blocked,
        .onWriteBlocked (.connection 2),.onWriteBlocked (.connection 0)],fun _ => []⟩ 4
      (start threeBlocked) = some (.ok c) ∧ Served threeBlocked c ∧
    c.served = [.connection 0,.connection 2] ∧
    c.dispatcher.writeBlockedList.keys = [.connection 2,.connection 0] := by
  obtain ⟨r,hr,hok,_⟩ := (onCanWrite_serves threeBlocked ⟨fun _ s => if s = 0 then
      [.writePacket .ok,.closeConnection 1] else [.writePacket .blocked,
        .onWriteBlocked (.connection 2),.onWriteBlocked (.connection 0)],fun _ => []⟩ (by
      intro s hs
      have hs : s = 0 ∨ s = 1 ∨ s = 2 := by simpa [threeBlocked,LinkedHashMap.keys] using hs
      rcases hs with rfl | rfl | rfl <;> rfl)).1
  obtain ⟨c,hc,hserved,hkeys⟩ : ∃ c, loop ⟨fun _ s => if s = 0 then
      [.writePacket .ok,.closeConnection 1] else [.writePacket .blocked,
        .onWriteBlocked (.connection 2),.onWriteBlocked (.connection 0)],fun _ => []⟩ 4
      (start threeBlocked) = some (.ok c) ∧ c.served = [.connection 0,.connection 2] ∧
    c.dispatcher.writeBlockedList.keys = [.connection 2,.connection 0] := ⟨_,rfl,rfl,rfl⟩
  have hrc : r = .ok c := Option.some.inj (hr.symm.trans hc)
  exact ⟨c,hc,hok c hrc,hserved,hkeys⟩

end CanWrite
end CmuQuic
