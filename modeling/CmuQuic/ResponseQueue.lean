import CmuQuic.DispatcherSteps

/-! The responses of the time-wait list manager leave in the order in which they were
generated, although a writer that is not blocked is used past the queue. -/
namespace CmuQuic
namespace Dispatcher

/-- Outside of `OnCanWrite` everything that waits is recorded as waiting, and waits for
a blocked writer. -/
structure Sequenced (d : Dispatcher) : Prop where
  order : d.written ++ d.pendingPacketsQueue = d.generated
  waiting : d.pendingPacketsQueue ≠ [] → d.control ≠ .timeWaitOnCanWrite →
    .timeWaitListManager ∈ d.writeBlockedList.keys
  blocked : d.writeBlockedList.entries ≠ [] → d.control.inCanWrite = false → d.writeBlocked = true

variable {R : QuicServerSession → Prop} {d d' : Dispatcher}

theorem Sequenced.initial (versions : List QuicVersion) (period max now : ℤ)
    (version : QuicVersion) : Sequenced (init versions period max now version) where
  order := rfl
  waiting h := absurd rfl h
  blocked h := absurd rfl h

theorem Sequenced.queue_nil (h : Sequenced d) (hc : d.control = .idle) (hb : d.writeBlocked = false) :
    d.pendingPacketsQueue = [] := by
  by_contra hq
  have hmem := h.waiting hq (by simp [hc])
  have hne : d.writeBlockedList.entries ≠ [] := by
    intro he
    simp [LinkedHashMap.keys,he] at hmem
  have hblocked := h.blocked hne (by simp [hc,DispatcherControl.inCanWrite])
  simp [hb] at hblocked

theorem ne_timeWait_of_out {c : DispatcherControl} (h : c.inCanWrite = false) :
    c ≠ .timeWaitOnCanWrite := by
  rintro rfl
  cases h

theorem Sequenced.change (h : Sequenced d) (hc : Change R d d') : Sequenced d' := by
  cases hc with
  | moves c hout hout' =>
    exact ⟨h.order,fun hq _ => h.waiting hq (ne_timeWait_of_out hout),fun hl _ => h.blocked hl hout⟩
  | setsWritable hctl =>
    exact ⟨h.order,fun hq _ => h.waiting hq (by simp [hctl]),fun _ hout => by cases hout⟩
  | stops hctl hstop =>
    refine ⟨h.order,fun hq _ => h.waiting hq (by simp [hctl]),fun hl _ => ?_⟩
    exact hstop.resolve_left hl
  | serves e rest hctl he =>
    refine ⟨h.order,fun hq hne => ?_,fun _ hout => ?_⟩
    · have hmem := h.waiting hq (by simp [hctl])
      simp only [LinkedHashMap.keys,he,List.map_cons] at hmem
      simp only [LinkedHashMap.keys,LinkedHashMap.popFront_of_cons he]
      refine (List.mem_cons.mp hmem).resolve_left fun h₀ => hne ?_
      rw [← h₀]
      rfl
    · cases hw : e.1 <;> simp [hw,QuicBlockedWriter.onCanWrite,DispatcherControl.inCanWrite] at hout
  | resumes s hctl =>
    exact ⟨h.order,fun hq _ => h.waiting hq (by simp [hctl]),fun _ hout => by cases hout⟩
  | drained hq => exact ⟨h.order,fun hne => absurd hq hne,fun _ hout => by cases hout⟩
  | stalls =>
    exact ⟨h.order,fun _ _ => LinkedHashMap.mem_keys_insert.mpr (Or.inl rfl),fun _ hout => by cases hout⟩
  | flushes p rest hctl hq =>
    refine ⟨?_,fun _ hne => absurd hctl hne,h.blocked⟩
    rw [← h.order,hq]
    simp
  | sends p hctl hb =>
    have hq := h.queue_nil hctl hb
    refine ⟨?_,h.waiting,h.blocked⟩
    show d.written ++ [p] ++ d.pendingPacketsQueue = d.generated ++ [p]
    rw [← h.order,hq]
    simp
  | queues p hctl =>
    refine ⟨?_,fun _ _ => LinkedHashMap.mem_keys_insert.mpr (Or.inl rfl),fun _ _ => rfl⟩
    show d.written ++ (d.pendingPacketsQueue ++ [p]) = d.generated ++ [p]
    rw [← List.append_assoc,h.order]
  | blocks => exact ⟨h.order,h.waiting,fun _ _ => rfl⟩
  | reportsBlocked s x _ _ hb =>
    exact ⟨h.order,fun hq hne => LinkedHashMap.mem_keys_insert.mpr (Or.inr (h.waiting hq hne)),
      fun _ _ => hb⟩
  | closes s x s' y alarm l =>
    refine ⟨h.order,fun hq hne => ?_,fun hl hout => h.blocked (fun he => hl ?_) hout⟩
    · exact LinkedHashMap.mem_keys_erase.mpr ⟨h.waiting hq hne,by simp⟩
    · simp [Dispatcher.closed,writeSession,LinkedHashMap.erase,he]
  | _ => exact ⟨h.order,h.waiting,h.blocked⟩

/-- For every interleaving of packets, writable events and writes of connections: the
responses that are done with, and after them those that wait, are all the responses in
their order; between two entry points what waits is on the list of blocked writers, and
there is such a list only while the writer is blocked. -/
theorem responses_of_run {versions : List QuicVersion} {period max now : ℤ} {version : QuicVersion}
    {es : List Event} (h : machine.Run (init versions period max now version) es d) :
    d.written ++ d.pendingPacketsQueue = d.generated ∧
    (d.control = .idle → d.pendingPacketsQueue ≠ [] →
      .timeWaitListManager ∈ d.writeBlockedList.keys) ∧
    (d.control = .idle → d.writeBlockedList.entries ≠ [] → d.writeBlocked = true) := by
  have hseq : Sequenced d := keeps_of_run (fun hd hc => hd.change hc) h
    (.initial versions period max now version)
  exact ⟨hseq.order,fun hc hq => hseq.waiting hq (by simp [hc]),
    fun hc hl => hseq.blocked hl (by simp [hc,DispatcherControl.inCanWrite])⟩

/-- A connection blocks the writer, two responses queue up behind it, and the writer
blocks again after the first of them. -/
theorem responses_of_blocking_run : ∃ d, machine.Run (init [25] 200 (-1) 100 25)
    [.processPacket ⟨1,443⟩ ⟨2,5000⟩ ⟨some ⟨7,false,true,25⟩,some 1⟩ true .ok,
      .connectionWrites 0 .blocked,.sessionOnWriteBlocked 0,.returns,
      .processPacket ⟨1,443⟩ ⟨3,6000⟩ ⟨some ⟨8,false,false,0⟩,some 1⟩ true .ok,
      .processPacket ⟨1,443⟩ ⟨3,6000⟩ ⟨some ⟨9,false,false,0⟩,some 4⟩ true .ok,
      .onCanWrite,.serveBlockedWriter,.connectionWrites 0 .ok,.returns,.serveBlockedWriter,
      .timeWaitOnCanWrite .ok,.timeWaitOnCanWrite .blocked,.serveBlockedWriter] d ∧
    d.written ++ d.pendingPacketsQueue = d.generated ∧
    (d.control = .idle → d.pendingPacketsQueue ≠ [] →
      .timeWaitListManager ∈ d.writeBlockedList.keys) ∧
    (d.control = .idle → d.writeBlockedList.entries ≠ [] → d.writeBlocked = true) :=
  let ⟨d,hd⟩ := machine.exists_run_of_exec (by decide +kernel)
  ⟨d,hd,responses_of_run hd⟩

end Dispatcher
end CmuQuic
