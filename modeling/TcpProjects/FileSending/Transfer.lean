import TcpProjects.FileSending.Download

/-! # Transfers without failures

Runs in which every call succeeds and every `write` is complete, and no signal
comes. Every such run is finite, whatever the counts of `sendfile` and `recv` are, and
it stands still only with both processes at their ends. -/

namespace TcpProjects.FileSending
open Transition

def Action.succeeds : Action → Bool
  | .server (.done ok) => ok
  | .client (.done ok) => ok
  | .server (.count r) => r.isSome
  | .client (.count r) => r.isSome
  | .interrupt => false
  | _ => true

def regular (x : State × Action) : Bool := x.2.succeeds && writesAll x

theorem regular_iff {s : State} {a : Action} :
    regular (s,a) = true ↔ a.succeeds = true ∧ writesAll (s,a) = true := by
  rw [regular,Bool.and_eq_true]

/-! ### The two processes together -/

/- `connectToServer` has returned. -/
def ClientPC.connected : ClientPC → Bool
  | .fopen => false
  | .connect => false
  | _ => true

/- The connection, by the points of the two processes. -/
def linkOf : ServerPC → ClientPC → Link
  | .listen, _ => .down
  | .accept, pc => if pc.connected then .pending else .listening
  | .returned, _ => .closed
  | _, _ => .established

structure Together (s : State) : Prop where
  link : s.link = linkOf s.server.pc s.client.pc
  deleted : s.server.deleted = true ↔ s.server.pc = .returned
  connected : s.server.pc = .sendfile ∨ s.server.pc = .exitHandler ∨ s.server.pc = .returned →
    s.client.pc.connected = true
  listen : s.server.pc = .listen → s.client.pc.connected = false
  running : s.server.pc ≠ .failed ∧ s.client.pc ≠ .failed

theorem Together.of_start (old : Bytes) : Together (start old) where
  link := rfl
  deleted := by simp [start]
  connected := by simp [start]
  listen _ := rfl
  running := by simp [start]

theorem linkOf_congr (p : ServerPC) {pc pc' : ClientPC} (h : pc.connected = pc'.connected) :
    linkOf p pc = linkOf p pc' := by
  cases p <;> simp [linkOf,h]

/- Steps of the client that neither make the connection nor fail. -/
theorem Together.client {s s' : State} (h : Together s) (hserver : s'.server = s.server)
    (hlink : s'.link = s.link) (hconnected : s'.client.pc.connected = s.client.pc.connected)
    (hlive : s'.client.pc ≠ .failed) : Together s' where
  link := by rw [hlink,hserver,linkOf_congr _ hconnected,h.link]
  deleted := by rw [hserver]; exact h.deleted
  connected := by rw [hserver,hconnected]; exact h.connected
  listen := by rw [hserver,hconnected]; exact h.listen
  running := by rw [hserver]; exact ⟨h.running.1,hlive⟩

theorem Together.step {source : Bytes} {s s' : State} {a : Action} (h : Together s)
    (hreg : a.succeeds = true) (hs : Step source s a s') : Together s' := by
  have hlive (pc : ServerPC) (hpc : s.server.pc = pc) (hne : pc ≠ .returned) :
      s.server.deleted = false := by
    rw [Bool.eq_false_iff,ne_eq,h.deleted,hpc]
    exact hne
  cases hs with
  | listen hpc hd =>
    have hno := h.listen hpc
    exact ⟨by simp [linkOf,hno],by simp [hd],by simp,by simp,by simp,h.running.2⟩
  | accept hpc hl =>
    have hyes : s.client.pc.connected = true := by
      by_contra hno
      rw [h.link,hpc,linkOf,if_neg hno] at hl
      cases hl
    exact ⟨rfl,by simp [hlive _ hpc],fun _ => hyes,by simp,by simp,h.running.2⟩
  | @sendfile n hpc hl hn =>
    have hyes := h.connected (Or.inl hpc)
    have hd := hlive _ hpc (by simp)
    rcases Nat.eq_zero_or_pos n with rfl | hpos
    · exact ⟨hl,by simp [hd,ServerPC.afterRound],fun _ => hyes,by simp [ServerPC.afterRound],
        by simp [ServerPC.afterRound],h.running.2⟩
    · have hround : ServerPC.afterRound n = .sendfile := if_pos (by omega)
      exact ⟨by simp [hround,linkOf,hl],by simp [hd,hround],fun _ => hyes,by simp [hround],
        by simp [hround],h.running.2⟩
  | exit hpc hans =>
    rcases hans with rfl | rfl | ⟨rfl,hd⟩
    · cases hreg
    · cases hreg
    · exact absurd (h.deleted.mp hd) hpc.1
  | exitHandler hpc hd =>
    have hl : s.link = .established := by rw [h.link,hpc]; rfl
    exact ⟨by simp [hl,linkOf,Link.close],by simp,fun _ => h.connected (Or.inr (Or.inl hpc)),by simp,
      by simp,h.running.2⟩
  | fopen hpc => exact h.client rfl rfl (by rw [hpc]; rfl) (by simp)
  | connect hpc hl =>
    have haccept : s.server.pc = .accept := by
      have hof := h.link
      rw [hl] at hof
      cases hs : s.server.pc <;> simp [hs,linkOf] at hof ⊢
    exact ⟨by simp [haccept,linkOf,ClientPC.connected],h.deleted,fun _ => rfl,by simp [haccept],
      h.running.1,by simp⟩
  | openFile hpc => exact h.client rfl rfl (by rw [hpc]; rfl) (by simp)
  | recv hpc hn => exact h.client rfl rfl (by rw [hpc]; rfl) (by simp)
  | write hpc hk =>
    simp only [ClientPC.afterRound]
    split_ifs
    · exact h.client rfl rfl (by rw [hpc]; rfl) (by simp)
    · exact h.client rfl rfl (by rw [hpc]; rfl) (by simp)
  | close hpc => exact h.client rfl rfl (by rw [hpc]; rfl) (by simp)
  | fail hans =>
    rcases hans with rfl | rfl
    · cases hreg
    · cases hreg
  | interrupt hd => cases hreg
  | abort hpc => cases hreg

theorem run_together {source old : Bytes} {tr : List (State × Action)} {s : State}
    (r : Run (step source) (start old) tr s) (hreg : ∀ x ∈ tr,regular x = true) : Together s :=
  r.guarded (fun s a => regular (s,a) = true) (Together.of_start old)
    (fun _ _ _ h hreg hs => h.step (regular_iff.mp hreg).1 (step_cases hs)) hreg

/-! ### Every run ends -/

/- Bounds on the steps that are left. -/
def serverLeft (source : Bytes) (s : State) : ℕ :=
  match s.server.pc with
  | .listen => source.length+4
  | .accept => source.length+3
  | .sendfile => source.length-s.server.offset+2
  | .exitHandler => 1
  | _ => 0

def clientLeft (source : Bytes) (s : State) : ℕ :=
  match s.client.pc with
  | .fopen => 2*source.length+6
  | .connect => 2*source.length+5
  | .openFile => 2*source.length+4
  | .recv => 2*(source.length-s.client.totalSizeRead)+3
  | .write _ => 2*(source.length-s.client.totalSizeRead)+2
  | .close => 1
  | _ => 0

theorem left_lt {source : Bytes} {s s' : State} {a : Action} (hstream : Stream source s)
    (hreg : a.succeeds = true) (hdeleted : s.server.deleted = true → s.server.pc = .returned)
    (hs : Step source s a s') :
    serverLeft source s'+clientLeft source s' < serverLeft source s+clientLeft source s := by
  cases hs with
  | listen hpc hd => simp [serverLeft,clientLeft,hpc]
  | accept hpc hl =>
    simp only [serverLeft,clientLeft,hpc]
    omega
  | @sendfile n hpc hl hn =>
    obtain ⟨_,hfits,_⟩ := hn
    rcases Nat.eq_zero_or_pos n with rfl | hpos
    · simp [serverLeft,clientLeft,hpc,ServerPC.afterRound]
    · have hround : ServerPC.afterRound n = .sendfile := if_pos (by omega)
      simp only [serverLeft,clientLeft,hpc,hround]
      omega
  | exit hpc hans =>
    rcases hans with rfl | rfl | ⟨rfl,hd⟩
    · cases hreg
    · cases hreg
    · exact absurd (hdeleted hd) hpc.1
  | exitHandler hpc hd => simp [serverLeft,clientLeft,hpc]
  | fopen hpc => simp [serverLeft,clientLeft,hpc]
  | connect hpc hl => simp [serverLeft,clientLeft,hpc]
  | openFile hpc =>
    simp only [serverLeft,clientLeft,hpc]
    omega
  | recv hpc hn => simp [serverLeft,clientLeft,hpc]
  | @write buffer k hpc hk =>
    have hcount := hstream.count
    have hle := hstream.offset_le
    simp only [hpc,ClientPC.pending] at hcount
    rcases Nat.eq_zero_or_pos buffer.length with hzero | hpos
    · simp [serverLeft,clientLeft,hpc,hzero,ClientPC.afterRound]
    · have hround : ClientPC.afterRound buffer.length = .recv := if_pos (by omega)
      simp only [serverLeft,clientLeft,hpc,hround]
      omega
  | close hpc => simp [serverLeft,clientLeft,hpc]
  | fail hans =>
    rcases hans with rfl | rfl
    · cases hreg
    · cases hreg
  | interrupt hd => cases hreg
  | abort hpc => cases hreg

theorem run_length {source old : Bytes} {tr : List (State × Action)} {s : State}
    (r : Run (step source) (start old) tr s) (hreg : ∀ x ∈ tr,regular x = true) :
    tr.length ≤ 3*source.length+10 := by
  have h := (r.length_le (I := fun s => Stream source s ∧ Together s) (fun s a => regular (s,a) = true)
    (fun s => serverLeft source s+clientLeft source s)
    ⟨Stream.of_start source old,Together.of_start old⟩
    (fun s a s' hi hreg hs => by
      have hok := (regular_iff.mp hreg).1
      have hstep := step_cases hs
      have htogether := hi.2.step hok hstep
      exact ⟨⟨hi.1.step hstep htogether.running.2,htogether⟩,left_lt hi.1 hok hi.2.deleted.mp hstep⟩)
    hreg).2
  simp only [serverLeft,clientLeft,start] at h
  omega

/-! ### No run stands still before the end -/

theorem server_goes_on {source : Bytes} {s : State} (hstream : Stream source s) (h : Together s)
    (hpc : s.server.pc ≠ .returned) (hwaits : s.server.pc = .accept → s.client.pc.connected = true) :
    ∃ ans,(Action.server ans).succeeds = true ∧ (step source s (.server ans)).isSome = true := by
  have hd : s.server.deleted = false := by
    rw [Bool.eq_false_iff,ne_eq,h.deleted]
    exact hpc
  cases hs : s.server.pc with
  | listen => exact ⟨.done true,rfl,by simp [step,serverStep,hs,hd]⟩
  | accept =>
    have hl : s.link = .pending := by
      rw [h.link,hs,linkOf,if_pos (hwaits hs)]
    exact ⟨.done true,rfl,by simp [step,serverStep,hs,hl]⟩
  | sendfile =>
    have hl : s.link = .established := by
      rw [h.link,hs]
      rfl
    -- One byte, or the end of the file.
    rcases Nat.lt_or_ge s.server.offset source.length with hlt | hge
    · have hn : sendfileReturns source s.server.offset 1 := ⟨by decide,hlt,by simp⟩
      exact ⟨.count (some 1),rfl,by simp [step,serverStep,hs,hl,hn]⟩
    · have hn : sendfileReturns source s.server.offset 0 :=
        ⟨by decide,hstream.offset_le,fun _ => hge⟩
      exact ⟨.count (some 0),rfl,by simp [step,serverStep,hs,hl,hn]⟩
  | exitHandler => exact ⟨.tick,rfl,by simp [step,serverStep,hs,hd]⟩
  | returned => exact absurd hs hpc
  | failed => exact absurd hs h.running.1

theorem client_goes_on (source : Bytes) {s : State} (h : Together s) (hpc : s.client.pc ≠ .returned)
    (hserver : s.server.pc = .returned ∨ s.server.pc = .accept ∧ s.client.pc.connected = false) :
    ∃ ans,regular (s,.client ans) = true ∧ (step source s (.client ans)).isSome = true := by
  have hclosed (hyes : s.client.pc.connected = true) : s.link = .closed := by
    rcases hserver with hs | ⟨_,hno⟩
    · rw [h.link,hs]
      rfl
    · rw [hno] at hyes
      cases hyes
  cases hs : s.client.pc with
  | fopen => exact ⟨.done true,by simp [regular,Action.succeeds,writesAll,hs],by simp [step,clientStep,hs]⟩
  | connect =>
    have hl : s.link = .listening := by
      rcases hserver with hserver | ⟨hserver,_⟩
      · have hyes := h.connected (Or.inr (Or.inr hserver))
        rw [hs] at hyes
        cases hyes
      · rw [h.link,hserver,hs]
        rfl
    exact ⟨.done true,by simp [regular,Action.succeeds,writesAll,hs],by simp [step,clientStep,hs,hl]⟩
  | openFile =>
    exact ⟨.done true,by simp [regular,Action.succeeds,writesAll,hs],by simp [step,clientStep,hs]⟩
  | recv =>
    have hl := hclosed (by rw [hs]; rfl)
    -- One byte, or the end of the stream.
    by_cases hnil : s.network = []
    · have hn : recvReturns s 0 := ⟨by decide,Nat.zero_le _,fun _ => ⟨hnil,hl⟩⟩
      exact ⟨.count (some 0),by simp [regular,Action.succeeds,writesAll,hs],by simp [step,clientStep,hs,hn]⟩
    · have hn : recvReturns s 1 := ⟨by decide,List.length_pos_iff.mpr hnil,by simp⟩
      exact ⟨.count (some 1),by simp [regular,Action.succeeds,writesAll,hs],by simp [step,clientStep,hs,hn]⟩
  | write buffer =>
    exact ⟨.count (some buffer.length),by simp [regular,Action.succeeds,writesAll,hs],
      by simp [step,clientStep,hs]⟩
  | close => exact ⟨.tick,by simp [regular,Action.succeeds,writesAll,hs],by simp [step,clientStep,hs]⟩
  | returned => exact absurd hs hpc
  | failed => exact absurd hs h.running.2

/- A run that cannot go on has both processes at their ends. -/
theorem stuck_returned {source : Bytes} {s : State} (hstream : Stream source s) (h : Together s)
    (hstuck : ∀ a,regular (s,a) = true → step source s a = none) :
    s.server.pc = .returned ∧ s.client.pc = .returned := by
  have hserver : s.server.pc = .returned := by
    by_contra hpc
    by_cases hwaits : s.server.pc = .accept ∧ s.client.pc.connected = false
    · have hclient : s.client.pc ≠ .returned := by
        intro hreturned
        rw [hreturned] at hwaits
        cases hwaits.2
      obtain ⟨ans,hreg,hgo⟩ := client_goes_on source h hclient (Or.inr hwaits)
      rw [hstuck _ hreg] at hgo
      cases hgo
    · obtain ⟨ans,hok,hgo⟩ := server_goes_on hstream h hpc fun ha => by
        by_contra hno
        exact hwaits ⟨ha,by simpa using hno⟩
      have hreg : regular (s,.server ans) = true := by
        have hwrites : writesAll (s,.server ans) = true := by
          unfold writesAll
          split <;> simp_all
        exact regular_iff.mpr ⟨hok,hwrites⟩
      rw [hstuck _ hreg] at hgo
      cases hgo
  refine ⟨hserver,?_⟩
  by_contra hpc
  obtain ⟨ans,hreg,hgo⟩ := client_goes_on source h hpc (Or.inl hserver)
  rw [hstuck _ hreg] at hgo
  cases hgo

theorem returned_stuck {source : Bytes} {s : State} (hserver : s.server.pc = .returned)
    (hclient : s.client.pc = .returned) (a : Action) : step source s a = none := by
  cases a with
  | server ans => simp [step,serverStep,hserver]
  | client ans => simp [step,clientStep,hclient]
  | interrupt => simp [step,FileSending.interrupt,hserver]

/-- Every run is finite, and where it ends both processes have returned, with the whole
file downloaded and counted. -/
theorem transfer_faithful {source old : Bytes} {tr : List (State × Action)} {s : State}
    (r : Run (step source) (start old) tr s) (hreg : ∀ x ∈ tr,regular x = true) :
    tr.length ≤ 3*source.length+10 ∧
    ((∀ a,regular (s,a) = true → step source s a = none) →
      s.server.pc = .returned ∧ s.client.pc = .returned ∧ s.client.target = source ∧
        s.server.totalSentBytes = source.length ∧ s.client.totalSizeRead = source.length) := by
  refine ⟨run_length r hreg,fun hstuck => ?_⟩
  have htogether := run_together r hreg
  have hstream := run_stream r htogether.running.2
  obtain ⟨hserver,hclient⟩ := stuck_returned hstream htogether hstuck
  have hstored := run_stored r (fun x hx => (regular_iff.mp (hreg x hx)).2) htogether.running.2
  obtain ⟨hnetwork,_⟩ := hstream.ended (by rw [hclient]; trivial)
  have hall : s.server.offset = source.length :=
    Nat.le_antisymm hstream.offset_le (hstream.sentAll (Or.inr hserver))
  have hread : s.client.totalSizeRead = source.length := by
    have hcount := hstream.count
    rw [hclient,hnetwork,hall] at hcount
    exact hcount
  refine ⟨hserver,hclient,?_,hstream.total.trans hall,hread⟩
  rw [hstored.target (by simp [hclient]),hread,List.take_length]

/- A file of three bytes, sent in two pieces that are received as they come, and over a longer
old file. -/
def transferSchedule : List Action :=
  [.server (.done true),.client (.done true),.client (.done true),.client (.done true),
    .server (.done true),.server (.count (some 2)),.client (.count (some 1)),
    .server (.count (some 1)),.client (.count (some 1)),.client (.count (some 2)),
    .client (.count (some 2)),.server (.count (some 0)),.server .tick,.client (.count (some 0)),
    .client (.count (some 0)),.client .tick]

theorem transfer_faithful_pieces :
    let s := (runOf (step (ascii "abc")) (start (ascii "before")) transferSchedule).2
    s.client.target = ascii "abc" ∧ s.client.totalSizeRead = 3 := by
  have h := (transfer_faithful (runOf_run (step (ascii "abc")) (start (ascii "before"))
    transferSchedule (by decide +kernel)) (by decide +kernel)).2 fun a _ =>
      returned_stuck (by decide +kernel) (by decide +kernel) a
  exact ⟨h.2.2.1,h.2.2.2.2⟩

end TcpProjects.FileSending
